import ScriptTools.Proofs.Guest.Deadline.Sober

/-!
The operations of scripts on values go on only while there is time: their metamethods are called from a line of
the script, and time passes when they return.
-/

namespace ScriptTools.Guest.Eval

variable {World α : Type} {script : String} {n : Nat} {d : Designation}

/-! What is read from tables -/

theorem still_metatable? (v : Value) : Still (metatable? v : Eval World (Option Nat)) := by
  unfold metatable?
  split
  · exact still_look _
  · exact still_look _
  · exact .pure

theorem still_rawGet (id : Nat) (k : Key) : Still (rawGet id k : Eval World Value) := still_look _

theorem still_metamethod (v : Value) (event : String) : Still (metamethod v event : Eval World Value) := by
  refine (still_metatable? v).bind fun m => ?_
  split
  · exact still_rawGet _ _
  · exact .pure

theorem still_binaryMeta (event : String) (a b : Value) : Still (binaryMeta event a b : Eval World Value) := by
  refine (still_metamethod a event).bind fun f => ?_
  split
  · exact still_metamethod b event
  · exact .pure

theorem still_typeTitle (v : Value) : Still (typeTitle v : Eval World String) := by
  unfold typeTitle
  split
  · refine (still_metamethod _ _).bind fun name => ?_
    split <;> exact .pure
  · exact .pure

theorem still_rawSet (id : Nat) (k : Key) (v : Value) : Still (rawSet id k v : Eval World Unit) := by
  intro s
  unfold rawSet
  dsimp only
  split
  · exact still_allocate _ { s with tables := s.tables.modify id fun t => t.set k v }
  · exact .inl ⟨_, _, rfl, rfl⟩

theorem still_newTable (t : Table) : Still (newTable t : Eval World Value) :=
  (still_allocate _).bind fun _ _ => .inl ⟨_, _, rfl, rfl⟩

theorem still_newClosure (f : Closure) : Still (newClosure f : Eval World Value) :=
  (still_allocate _).bind fun _ _ => .inl ⟨_, _, rfl, rfl⟩

theorem still_newCell (v : Value) : Still (newCell v : Eval World Nat) := fun _ => .inl ⟨_, _, rfl, rfl⟩

/-! Errors -/

theorem awake_errorAt (site : Site) (message : String) : Awake (errorAt site message : Eval World α) := awake_error _

theorem awake_typeFault (site : Site) (action : String) (v : Value) (d : Designation) :
    Awake (typeFault site action v d : Eval World α) := (still_typeTitle v).awake.bind fun _ => awake_errorAt _ _

theorem awake_orderFault (site : Site) (a b : Value) : Awake (orderFault site a b : Eval World α) := by
  refine (still_typeTitle a).awake.bind fun x => (still_typeTitle b).awake.bind fun y => ?_
  split <;> exact awake_errorAt _ _

theorem awake_bitFault (site : Site) (a b : Value) (da db : Designation) :
    Awake (bitFault site a b da db : Eval World α) := by
  unfold bitFault
  split
  · exact awake_errorAt _ _
  · exact awake_typeFault _ _ _ _

/-! Metamethods -/

theorem awake_callMeta (event : String) (f : Value) (args : List Value) :
    Awake (callMeta (.line script n d) event f args : Eval World Value) := (awake_callFromScript _ _ _).bind fun _ => .pure

theorem awake_indexChain (key : Value) (count : Nat) (v : Value) (d' : Designation) :
    Awake (indexChain (.line script n d) d' key count v : Eval World Value) := by
  induction count generalizing v d' with
  | zero => exact awake_errorAt _ _
  | succ count ih =>
    unfold indexChain
    dsimp only
    split
    · -- The rest is the same whether the key can be looked up or not.
      split <;> refine .bind (Still.awake ?_) fun own => .ite .pure ((still_look _).awake.bind fun m => ?_)
      case h_1.refine_1 => exact still_rawGet _ _
      case h_2.refine_1 => exact .pure
      all_goals
        split
        · exact .pure
        · refine (still_rawGet _ _).awake.bind fun handler => ?_
          split
          · exact .pure
          · split <;> first | exact awake_callMeta _ _ _ | exact ih _ _
    · refine (still_metamethod v _).awake.bind fun handler => ?_
      split
      · exact awake_typeFault _ _ _ _
      · split <;> first | exact awake_callMeta _ _ _ | exact ih _ _

theorem awake_index (d' : Designation) (v key : Value) : Awake (index (.line script n d) d' v key : Eval World Value) :=
  awake_indexChain key _ v d'

theorem awake_setRaw (site : Site) (id : Nat) (key v : Value) : Awake (setRaw site id key v : Eval World Unit) := by
  unfold setRaw
  split
  · exact (still_rawSet _ _ _).awake
  · split <;> exact awake_errorAt _ _

theorem awake_setIndexChain (key new : Value) (count : Nat) (v : Value) (d' : Designation) :
    Awake (setIndexChain (.line script n d) d' key new count v : Eval World Unit) := by
  induction count generalizing v d' with
  | zero => exact awake_errorAt _ _
  | succ count ih =>
    unfold setIndexChain
    dsimp only
    split
    · refine (still_look _).awake.bind fun m => ?_
      split
      · exact awake_setRaw _ _ _ _
      · refine (still_rawGet _ _).awake.bind fun handler => ?_
        split
        · exact awake_setRaw _ _ _ _
        · split
          · refine (still_rawGet _ _).awake.bind fun own => .ite ?_ (awake_setRaw _ _ _ _)
            split <;> first | exact (awake_callMeta _ _ _).bind fun _ => .pure | exact ih _ _
          · refine Awake.pure.bind fun own => .ite ?_ (awake_setRaw _ _ _ _)
            split <;> first | exact (awake_callMeta _ _ _).bind fun _ => .pure | exact ih _ _
    · refine (still_metamethod v _).awake.bind fun handler => ?_
      split
      · exact awake_typeFault _ _ _ _
      · split <;> first | exact (awake_callMeta _ _ _).bind fun _ => .pure | exact ih _ _

theorem awake_setIndex (d' : Designation) (v key new : Value) :
    Awake (setIndex (.line script n d) d' v key new : Eval World Unit) :=
  awake_setIndexChain key new _ v d'

/-! Operators -/

/-- What an operator does when its operands have no value for it: a metamethod is called, or there is an error. -/
theorem awake_meta {find : Eval World Value} (still : Still find) {fails : Eval World α} (fault : Awake fails)
    {goesOn : Value → Eval World α} (next : ∀ f, Awake (goesOn f)) :
    Awake (do
      match ← find with
      | .nil => fails
      | f => goesOn f) := by
  refine still.awake.bind fun f => ?_
  split
  · exact fault
  · exact next _

theorem awake_arith (op : ArithOp) (a b : Value) (da db : Designation) :
    Awake (arith (.line script n d) op a b da db : Eval World Value) := by
  unfold arith
  split
  · split
    · exact .pure
    · exact awake_errorAt _ _
  · exact awake_meta (still_binaryMeta _ _ _) (awake_typeFault _ _ _ _) fun f => awake_callMeta _ _ _

theorem awake_bits (op : BitOp) (a b : Value) (da db : Designation) :
    Awake (bits (.line script n d) op a b da db : Eval World Value) := by
  unfold bits
  split
  · exact .pure
  · exact awake_meta (still_binaryMeta _ _ _) (awake_bitFault _ _ _ _ _) fun f => awake_callMeta _ _ _

theorem awake_negate (v : Value) (d' : Designation) : Awake (negate (.line script n d) v d' : Eval World Value) := by
  unfold negate
  split
  · exact .pure
  · exact awake_meta (still_metamethod _ _) (awake_typeFault _ _ _ _) fun f => awake_callMeta _ _ _

theorem awake_complement (v : Value) (d' : Designation) : Awake (complement (.line script n d) v d' : Eval World Value) := by
  unfold complement
  split
  · exact .pure
  · exact awake_meta (still_metamethod _ _) (awake_bitFault _ _ _ _ _) fun f => awake_callMeta _ _ _

theorem awake_length (v : Value) (d' : Designation) : Awake (length (.line script n d) v d' : Eval World Value) := by
  unfold length
  split
  · exact .pure
  · refine (still_metamethod _ _).awake.bind fun f => ?_
    split
    · exact (still_look _).awake.bind fun _ => .pure
    · exact awake_typeFault _ _ _ _
    · exact awake_callMeta _ _ _

theorem awake_concat (a b : Value) (da db : Designation) :
    Awake (concat (.line script n d) a b da db : Eval World Value) := by
  unfold concat
  split
  · exact (still_allocate _).awake.bind fun _ => .pure
  · exact awake_meta (still_binaryMeta _ _ _) (awake_typeFault _ _ _ _) fun f => awake_callMeta _ _ _

theorem awake_equals (a b : Value) : Awake (equals (.line script n d) a b : Eval World Bool) := by
  unfold equals
  split
  · exact .ite .pure (awake_meta (still_binaryMeta _ _ _) .pure fun f => (awake_callMeta _ _ _).bind fun _ => .pure)
  · exact .pure

theorem awake_less (a b : Value) : Awake (less (.line script n d) a b : Eval World Bool) := by
  unfold less
  split
  · exact .pure
  · exact .pure
  · exact awake_meta (still_binaryMeta _ _ _) (awake_orderFault _ _ _) fun f => (awake_callMeta _ _ _).bind fun _ => .pure

theorem awake_lessEqual (a b : Value) : Awake (lessEqual (.line script n d) a b : Eval World Bool) := by
  unfold lessEqual
  split
  · exact .pure
  · exact .pure
  · refine awake_meta (still_binaryMeta _ _ _) ?_ fun f => (awake_callMeta _ _ _).bind fun _ => .pure
    exact awake_meta (still_binaryMeta _ _ _) (awake_orderFault _ _ _) fun f => (awake_callMeta _ _ _).bind fun _ => .pure

theorem awake_compare (op : CompareOp) (a b : Value) : Awake (compare (.line script n d) op a b : Eval World Bool) := by
  cases op with
  | equal => exact awake_equals a b
  | notEqual => exact (awake_equals a b).bind fun _ => .pure
  | less => exact awake_less a b
  | lessEqual => exact awake_lessEqual a b
  | greater => exact awake_less b a
  | greaterEqual => exact awake_lessEqual b a

end ScriptTools.Guest.Eval
