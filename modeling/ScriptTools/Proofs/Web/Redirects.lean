import ScriptTools.Proofs.Policy.Checked
import ScriptTools.Proofs.Result
import ScriptTools.Web.Client

/-!
Which requests a call sends. The policy is asked about the first one alone; every later one is what the
other side asks for, so the policy holds for all of them exactly when no redirect leads out of it.
-/

namespace ScriptTools.Web

/-- Whether `r`, sent after `before`, is answered with a redirect to `next`. -/
def Network.Redirects (n : Network) (before : List HttpRequest) (r next : HttpRequest) : Prop :=
  ∃ answer, n.reply before r = .response answer ∧ redirected? r answer = some next

/-- Requests of one call, latest first: each but the first is what the one before was redirected to. -/
inductive Network.Chain (n : Network) (first : HttpRequest) : List HttpRequest → Prop where
  | first : n.Chain first [first]
  | redirect {earlier : List HttpRequest} {r next : HttpRequest} (chain : n.Chain first (r :: earlier))
      (answer : n.Redirects (earlier ++ n.sent) r next) : n.Chain first (next :: r :: earlier)

/-- The network after requests were sent. -/
def Network.after (n : Network) (requests : List HttpRequest) : Network := { n with sent := requests ++ n.sent }

variable {n : Network} {first r next : HttpRequest} {earlier chain : List HttpRequest}

namespace Network

theorem Redirects.unique {before : List HttpRequest} {other : HttpRequest} (answer : n.Redirects before r next)
    (also : n.Redirects before r other) : next = other := by
  obtain ⟨a, reply, asks⟩ := answer
  obtain ⟨b, same, toOther⟩ := also
  rw [reply] at same
  cases same
  exact Option.some.inj (asks.symm.trans toOther)

/-- The answers decide the chain: of two chains the shorter is how the longer began. -/
theorem Chain.suffix {longer : List HttpRequest} (short : n.Chain first chain) (long : n.Chain first longer)
    (bound : chain.length ≤ longer.length) : chain <:+ longer := by
  induction long generalizing chain with
  | first =>
    cases short with
    | first => exact List.suffix_refl _
    | redirect => simp at bound
  | @redirect earlier r next long answer ih =>
    rcases Nat.lt_or_eq_of_le bound with shorter | same
    · exact (ih short (Nat.le_of_lt_succ shorter)).trans (List.suffix_cons _ _)
    · cases short with
      | first => simp at same
      | @redirect _ r' _ short answer' =>
        have began := (ih short (by simpa using Nat.le_of_eq same)).eq_of_length (by simpa using same)
        cases began
        obtain rfl := answer'.unique answer
        exact List.suffix_refl _

/-- A chain is over when the last request is answered without a redirect. -/
def Over (n : Network) : List HttpRequest → Prop
  | [] => True
  | r :: earlier => ∀ next, ¬ n.Redirects (earlier ++ n.sent) r next

theorem Chain.length_pos (done : n.Chain first chain) : 0 < chain.length := by
  cases done <;> simp

/-- No chain goes on after one that is over, nor after one that is as long as can be. -/
theorem Chain.suffix_of_over {other : List HttpRequest} {most : Nat} (done : n.Chain first chain)
    (last : chain.length = most ∨ n.Over chain) (begun : n.Chain first other) (bound : other.length ≤ most) :
    other <:+ chain := by
  induction begun with
  | first => exact Chain.first.suffix done done.length_pos
  | @redirect earlier r next begun answer ih =>
    have before := ih (Nat.le_of_succ_le bound)
    rcases Nat.lt_or_eq_of_le before.length_le with shorter | same
    · exact (begun.redirect answer).suffix done shorter
    · obtain rfl := before.eq_of_length same
      rcases last with full | ended
      · simp only [List.length_cons] at bound full
        omega
      · exact absurd answer (ended next)

/-- Each request of a chain is the first or was redirected to from the one before it. -/
theorem Chain.mem (done : n.Chain first chain) (inChain : next ∈ chain) :
    next = first ∨ ∃ r earlier, n.Chain first (r :: earlier) ∧ n.Redirects (earlier ++ n.sent) r next ∧
      next :: r :: earlier <:+ chain := by
  induction done with
  | first => exact .inl (by simpa using inChain)
  | @redirect earlier r latest done answer ih =>
    rcases List.mem_cons.mp inChain with rfl | before
    · exact .inr ⟨r, earlier, done, answer, List.suffix_refl _⟩
    · rcases ih before with rfl | ⟨r', earlier', begun, answer', within⟩
      · exact .inl rfl
      · exact .inr ⟨r', earlier', begun, answer', within.trans (List.suffix_cons _ _)⟩

theorem Chain.getLast? (done : n.Chain first chain) : chain.getLast? = some first := by
  induction done with
  | first => rfl
  | redirect _ _ ih => rw [List.getLast?_cons_cons, ih]

/-! What is sent -/

theorem send_after (n : Network) (earlier : List HttpRequest) (r : HttpRequest) :
    (n.after earlier).send r = (n.after (r :: earlier), n.reply (earlier ++ n.sent) r) := rfl

theorem exchange_zero (n : Network) (earlier : List HttpRequest) (r : HttpRequest) :
    (exchange (n.after earlier) r 0).1 = n.after (r :: earlier) := by
  rw [exchange, send_after]
  cases n.reply (earlier ++ n.sent) r <;> rfl

theorem exchange_of_over (ended : n.Over (r :: earlier)) (redirects : Nat) :
    (exchange (n.after earlier) r redirects).1 = n.after (r :: earlier) := by
  cases redirects with
  | zero => exact exchange_zero n earlier r
  | succ redirects =>
    simp only [exchange, send_after]
    cases reply : n.reply (earlier ++ n.sent) r with
    | failed | silent => rfl
    | response a =>
      cases asks : redirected? r a with
      | none => simp only [asks]
      | some next => exact absurd ⟨a, reply, asks⟩ (ended next)

theorem exchange_of_redirects (answer : n.Redirects (earlier ++ n.sent) r next) (redirects : Nat) :
    exchange (n.after earlier) r (redirects + 1) = exchange (n.after (r :: earlier)) next redirects := by
  obtain ⟨a, reply, asks⟩ := answer
  simp only [exchange, send_after, reply, asks]

/-- What is sent from `r` on continues the chain until it is over or the redirects are used up. -/
theorem exchange_chain (begun : n.Chain first (r :: earlier)) (redirects : Nat) :
    ∃ chain, (exchange (n.after earlier) r redirects).1 = n.after chain ∧ n.Chain first chain ∧
      chain.length ≤ earlier.length + redirects + 1 ∧
      (chain.length = earlier.length + redirects + 1 ∨ n.Over chain) := by
  induction redirects generalizing r earlier with
  | zero => exact ⟨r :: earlier, exchange_zero n earlier r, begun, Nat.le_refl _, .inl rfl⟩
  | succ redirects ih =>
    by_cases more : ∃ next, n.Redirects (earlier ++ n.sent) r next
    · obtain ⟨next, answer⟩ := more
      obtain ⟨chain, sent, whole, bound, last⟩ := ih (begun.redirect answer)
      have count : (r :: earlier).length + redirects + 1 = earlier.length + (redirects + 1) + 1 := by
        simp only [List.length_cons]
        omega
      rw [count] at bound last
      exact ⟨chain, by rw [exchange_of_redirects answer, sent], whole, bound, last⟩
    · have ended : n.Over (r :: earlier) := fun next answer => more ⟨next, answer⟩
      exact ⟨r :: earlier, exchange_of_over ended _, begun, by simp, .inr ended⟩

end Network

namespace WebAccess

/-- The first request of a call. -/
def opening (method : Method) (url : Url) (body : HostValue) (headers : List (String × String)) : HttpRequest :=
  ⟨method, url, allHeaders headers (bodyOf body).2 (bodyOf body).1, (bodyOf body).1⟩

/-- Whether the policy allows the host that a request goes to. -/
def Allows (w : WebAccess) (r : HttpRequest) : Prop := w.policy.check ⟨.netHttp, some r.url.host⟩ = .ok ()

variable {w : WebAccess} {method : Method} {address : String} {body : HostValue} {headers : List (String × String)}
  {url : Url}

theorem allows_of_permit (permitted : w.permit address = .ok url) :
    w.Allows (opening method url body headers) := by
  rw [permit] at permitted
  split at permitted
  · cases permitted
  · cases permitted
  · obtain ⟨_, required, same⟩ := bind_eq_ok.mp permitted
    cases same
    exact Policy.require_eq_ok.mp required

/-- A call that is not permitted, or finds no network, sends nothing. -/
theorem request_refused (refused : ∀ url, w.permit address = .ok url → n.reachable = false) :
    (w.request n method address body headers).1 = n := by
  rw [request]
  cases permitted : w.permit address with
  | error e => rfl
  | ok url => simp [refused url permitted]

/-- A call that is permitted sends the chain from its first request on, as far as redirects are followed. -/
theorem request_chain (permitted : w.permit address = .ok url) (reachable : n.reachable = true) :
    ∃ chain, (w.request n method address body headers).1 = n.after chain ∧
      n.Chain (opening method url body headers) chain ∧ chain.length ≤ redirectLimit + 1 ∧
      (chain.length = redirectLimit + 1 ∨ n.Over chain) := by
  obtain ⟨chain, sent, whole, bound, last⟩ :=
    Network.exchange_chain (n := n) (.first : n.Chain (opening method url body headers) _) redirectLimit
  simp only [List.length_nil, Nat.zero_add] at bound last
  refine ⟨chain, ?_, whole, bound, last⟩
  obtain ⟨answer, run⟩ : ∃ answer, exchange n (opening method url body headers) redirectLimit = (n.after chain, answer) :=
    ⟨_, Prod.ext sent rfl⟩
  rw [opening] at run
  simp only [request, permitted, reachable, Bool.not_true, Bool.false_eq_true, if_false]
  rw [run]
  cases answer <;> rfl

/-- The first request of a call goes to a host that the policy allows; all of them do exactly when every
redirect that is followed leads to such a host. -/
theorem request_allowed_iff (w : WebAccess) (n : Network) (method : Method) (address : String) (body : HostValue)
    (headers : List (String × String)) :
    ∃ new, (w.request n method address body headers).1 = n.after new ∧ (∀ first ∈ new.getLast?, w.Allows first) ∧
      ((∀ r ∈ new, w.Allows r) ↔
        ∀ url, w.permit address = .ok url → n.reachable = true → ∀ r earlier next,
          n.Chain (opening method url body headers) (r :: earlier) → earlier.length < redirectLimit →
            n.Redirects (earlier ++ n.sent) r next → w.Allows next) := by
  by_cases goes : ∃ url, w.permit address = .ok url ∧ n.reachable = true
  · obtain ⟨url, permitted, reachable⟩ := goes
    obtain ⟨chain, sent, whole, bound, last⟩ := request_chain permitted reachable
    have start : w.Allows (opening method url body headers) := allows_of_permit permitted
    refine ⟨chain, sent, ?_, fun allowed url' permitted' _ r earlier next begun short answer => ?_,
      fun redirects r inChain => ?_⟩
    · simpa [whole.getLast?] using start
    · cases permitted.symm.trans permitted'
      have followed := whole.suffix_of_over last (begun.redirect answer) (Nat.succ_le_succ short)
      exact allowed next (followed.subset (by simp))
    · rcases whole.mem inChain with rfl | ⟨before, earlier, begun, answer, within⟩
      · exact start
      · have shorter := within.length_le
        simp only [List.length_cons] at shorter
        exact redirects url permitted reachable before earlier r begun (by omega) answer
  · have refused : ∀ url, w.permit address = .ok url → n.reachable = false := by
      intro url permitted
      simpa using fun reachable => goes ⟨url, permitted, reachable⟩
    refine ⟨[], request_refused refused, by simp, fun _ url permitted reachable => ?_, by simp⟩
    exact absurd ⟨url, permitted, reachable⟩ goes

/-- Access to the loopback address and to no host by name. -/
def loopbackOnly : WebAccess := ⟨{ netHttp := ["127.0.0.1"] }, .ofSeconds 10⟩

/-- A server that sends requests on to the name of its own machine. -/
def toLocalhost : Network where
  reply _ r :=
    .response ⟨if r.url.host = "localhost" then 200 else 302, [("location", "http://localhost/".toUTF8)], .empty⟩

/-- A call to an address that is allowed goes on to a host that is not. -/
theorem request_not_allowed_localhost :
    ∃ r ∈ (loopbackOnly.get toLocalhost "http://127.0.0.1/" []).1.sent, ¬ loopbackOnly.Allows r := by
  have hosts : (loopbackOnly.get toLocalhost "http://127.0.0.1/" []).1.sent.map (·.url.host) =
      ["localhost", "127.0.0.1"] := by decide +kernel
  have refused : (loopbackOnly.policy.check ⟨.netHttp, some "localhost"⟩).isOk = false := by decide +kernel
  obtain ⟨r, sent, host⟩ : ∃ r ∈ (loopbackOnly.get toLocalhost "http://127.0.0.1/" []).1.sent,
      r.url.host = "localhost" := List.mem_map.mp (by simp [hosts])
  refine ⟨r, sent, fun allowed => ?_⟩
  rw [Allows, host] at allowed
  rw [allowed] at refused
  cases refused

end WebAccess

end ScriptTools.Web
