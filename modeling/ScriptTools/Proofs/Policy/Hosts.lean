import Mathlib.Data.List.Forall2
import ScriptTools.Proofs.Policy.Checked
import ScriptTools.Proofs.Text.Parts

/-!
What the policy allows of hosts. An entry covers the hosts that end in its labels, whatever the case of their letters, so
it never covers a host that only ends in the same characters.
-/

namespace ScriptTools.Policy

open List (Forall₂)

/-- Whether two characters are the same but for the case of a letter of ASCII. -/
def SameLetter (a b : Char) : Prop :=
  a = b ∨ a.isUpper = true ∧ b.toNat = a.toNat + 32 ∨ b.isUpper = true ∧ a.toNat = b.toNat + 32

def SameLabel (a b : String) : Prop := Forall₂ SameLetter a.toList b.toList

/-- Whether the last labels of a host are those of an entry. -/
def EndsInLabels (host entry : String) : Prop :=
  ∃ labels, labels <:+ Text.parts '.' host ∧ Forall₂ SameLabel labels (Text.parts '.' entry)

theorem isUpper_iff_val {c : Char} : c.isUpper = true ↔ c.val ≥ 'A'.val ∧ c.val ≤ 'Z'.val := decide_eq_true_iff

theorem isUpper_iff {c : Char} : c.isUpper = true ↔ 65 ≤ c.toNat ∧ c.toNat ≤ 90 := by
  rw [isUpper_iff_val, ge_iff_le, UInt32.le_iff_toNat_le, UInt32.le_iff_toNat_le, Char.toNat_val]
  exact Iff.rfl

theorem toLower_toNat (c : Char) : c.toLower.toNat = if c.isUpper then c.toNat + 32 else c.toNat := by
  unfold Char.toLower
  split
  · rename_i upper
    have bound := isUpper_iff.mp (isUpper_iff_val.mpr upper)
    rw [if_pos (isUpper_iff_val.mpr upper)]
    change (c.val + 32).toNat = _
    rw [UInt32.toNat_add, Char.toNat_val]
    change (c.toNat + 32) % 4294967296 = _
    omega
  · rename_i other
    rw [if_neg (mt isUpper_iff_val.mp other)]

theorem sameLetter_iff (a b : Char) : SameLetter a b ↔ a.toLower = b.toLower := by
  rw [SameLetter, ← Char.toNat_inj, ← Char.toNat_inj, toLower_toNat, toLower_toNat]
  split <;> split <;> rename_i first second <;> rw [isUpper_iff] at first second <;> simp only [isUpper_iff] <;> omega

theorem toLower_eq_dot_iff {c : Char} : c.toLower = '.' ↔ c = '.' := by
  have same := sameLetter_iff c '.'
  rw [show '.'.toLower = '.' from by decide] at same
  rw [← same, SameLetter, isUpper_iff, isUpper_iff, or_iff_left]
  simp only [show '.'.toNat = 46 from rfl]
  omega

/-- Lists agree up to a relation when they become equal under a map that makes the related equal. -/
theorem forall₂_iff_map_eq {α β : Type} {related : α → α → Prop} {f : α → β} (same : ∀ a b, related a b ↔ f a = f b)
    {as bs : List α} : Forall₂ related as bs ↔ as.map f = bs.map f := by
  rw [← List.forall₂_eq_eq_eq, List.forall₂_map_left_iff, List.forall₂_map_right_iff,
    show related = fun a b => f a = f b from funext₂ fun a b => propext (same a b)]

theorem sameLabel_iff (a b : String) : SameLabel a b ↔ lowerHost a = lowerHost b :=
  forall₂_iff_map_eq sameLetter_iff

theorem splitOn_lowerHost (host : String) : (lowerHost host).splitOn '.' = (Text.parts '.' host).map lowerHost := by
  have dot : '.'.toLower = '.' := by decide
  have split : (host.toList.map Char.toLower).splitOn '.'.toLower = (host.toList.splitOn '.').map (List.map Char.toLower) :=
    Text.splitOn_map fun c => by rw [dot, toLower_eq_dot_iff]
  rw [dot] at split
  rw [lowerHost, split, ← Text.map_toList_parts, List.map_map]
  rfl

theorem endsInLabels_iff {host entry : String} :
    EndsInLabels host entry ↔ lowerHost host = lowerHost entry ∨ '.' :: lowerHost entry <:+ lowerHost host := by
  rw [← Text.splitOn_suffix_iff, splitOn_lowerHost, splitOn_lowerHost, List.suffix_map_iff]
  exact exists_congr fun _ => and_congr_right fun _ => (forall₂_iff_map_eq sameLabel_iff).trans eq_comm

theorem hostCovers_iff {entry host : String} : hostCovers entry host = true ↔ entry = "*" ∨ EndsInLabels host entry := by
  rw [hostCovers, Bool.or_eq_true, Bool.or_eq_true, beq_iff_eq, beq_iff_eq, List.isSuffixOf_iff_suffix, endsInLabels_iff,
    or_assoc]

/-- A host with the characters of an entry at its end has the labels of the entry there when a label starts with them. -/
theorem endsInLabels_append_iff {front entry : String} :
    EndsInLabels (front ++ entry) entry ↔ front = "" ∨ front.toList.getLast? = some '.' := by
  have text : lowerHost (front ++ entry) = front.toList.map Char.toLower ++ lowerHost entry := by
    simp [lowerHost]
  have starts : '.' :: lowerHost entry <:+ front.toList.map Char.toLower ++ lowerHost entry ↔
      front.toList.getLast? = some '.' := by
    rw [← List.singleton_append, List.suffix_append_self_iff, List.singleton_suffix_iff_getLast?_eq_some, List.getLast?_map]
    simp [toLower_eq_dot_iff]
  rw [endsInLabels_iff, text, starts]
  simp

/-- A host is allowed where its last labels are those of an entry, or an entry is a star. So an entry allows a longer host
with its characters at the end only when a dot stands before them. -/
theorem check_host_iff (p : Policy) :
    (∀ host, p.check ⟨.netHttp, some host⟩ = .ok () ↔
      .netHttp ∉ p.denied ∧ ∃ e ∈ p.netHttp, e = "*" ∨ EndsInLabels host e) ∧
    (∀ front entry, { p with netHttp := [entry] }.check ⟨.netHttp, some (front ++ entry)⟩ = .ok () ↔
      .netHttp ∉ p.denied ∧ (entry = "*" ∨ front = "" ∨ front.toList.getLast? = some '.')) := by
  have allowed (q : Policy) (host : String) : q.check ⟨.netHttp, some host⟩ = .ok () ↔
      .netHttp ∉ q.denied ∧ ∃ e ∈ q.netHttp, e = "*" ∨ EndsInLabels host e := by
    rw [check_eq_ok, listed_iff]
    simp [entries, hostCovers_iff]
  refine ⟨allowed p, fun front entry => ?_⟩
  rw [allowed]
  simp [endsInLabels_append_iff]

end ScriptTools.Policy
