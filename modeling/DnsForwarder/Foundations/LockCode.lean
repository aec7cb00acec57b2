import DnsForwarder.Foundations.Locks

/-!
# Code that takes locks

A small language for what the functions of a program do to its locks. A lock is held for the length
of a block, and a block that is left early gives its lock back too. `Exec` says which sequences of
operations a piece of code may lead to, whatever the data that its branches and loops depend on.

Two checks on the text of the code, `Code.Guarded` and `Code.Ordered`, carry over to all of these
sequences (`Exec.guarded`, `Exec.ordered`), and so to all runs of threads that run the code.
-/

namespace DnsForwarder.Locks

variable {L O : Type}

inductive Code (L O : Type) : Type 1
  | skip
  /-- `return`, or an exception. -/
  | stop
  | access (o : O) (a : Access)
  | seq (a b : Code L O)
  | either (a b : Code L O)
  | choose {ι : Type} (body : ι → Code L O)
  /-- Any number of times. -/
  | loop (body : Code L O)
  /-- Nothing behind the block is left out by what stops inside: the body of a function, or a `try`
  that catches everything. -/
  | scope (body : Code L O)
  /-- A block that begins with the declaration of a lock. -/
  | locked (m : L) (mode : Mode) (body : Code L O)

/-- The code leads to these operations, and goes on behind itself or (`true`) stops. -/
inductive Exec : Code L O → List (Op L O) → Bool → Prop
  | skip : Exec .skip [] false
  | stop : Exec .stop [] true
  | access (o a) : Exec (.access o a) [.access o a] false
  | seq {a b xs ys r} (ha : Exec a xs false) (hb : Exec b ys r) : Exec (.seq a b) (xs ++ ys) r
  | seqStop {a b xs} (ha : Exec a xs true) : Exec (.seq a b) xs true
  | left {a b xs r} (ha : Exec a xs r) : Exec (.either a b) xs r
  | right {a b xs r} (hb : Exec b xs r) : Exec (.either a b) xs r
  | choose {ι : Type} {body : ι → Code L O} {xs r} (i : ι) (h : Exec (body i) xs r) :
    Exec (.choose body) xs r
  | loopEnd {body} : Exec (.loop body) [] false
  | loop {body xs ys r} (hbody : Exec body xs false) (hloop : Exec (.loop body) ys r) :
    Exec (.loop body) (xs ++ ys) r
  | loopStop {body xs} (hbody : Exec body xs true) : Exec (.loop body) xs true
  | scope {body xs r} (h : Exec body xs r) : Exec (.scope body) xs false
  | locked {m mode body xs r} (h : Exec body xs r) :
    Exec (.locked m mode body) (.acquire m mode :: (xs ++ [.release m mode])) r

namespace Code

/-- One after the other. -/
@[simp] def all : List (Code L O) → Code L O
  | [] => skip
  | a :: as => seq a (all as)

/-- Every access that `p` speaks of stands in blocks that hold the lock of the object. -/
@[simp] def Guarded (p : O → Access → Prop) (guard : O → L) : List (L × Mode) → Code L O → Prop
  | _, skip | _, stop => True
  | held, access o a => p o a → Covered (guard o) a held
  | held, seq a b | held, either a b => Guarded p guard held a ∧ Guarded p guard held b
  | held, choose body => ∀ i, Guarded p guard held (body i)
  | held, loop body | held, scope body => Guarded p guard held body
  | held, locked m mode body => Guarded p guard ((m, mode) :: held) body

/-- Every block takes a lock of a higher rank than those held around it. -/
@[simp] def Ordered (rank : L → ℕ) : List (L × Mode) → Code L O → Prop
  | _, skip | _, stop | _, access _ _ => True
  | held, seq a b | held, either a b => Ordered rank held a ∧ Ordered rank held b
  | held, choose body => ∀ i, Ordered rank held (body i)
  | held, loop body | held, scope body => Ordered rank held body
  | held, locked m mode body =>
    (∀ k ∈ held, rank k.1 < rank m) ∧ Ordered rank ((m, mode) :: held) body

end Code

variable [DecidableEq L] {code : Code L O} {xs : List (Op L O)} {r : Bool}
  {held : List (L × Mode)} {rest : List (Op L O)}

/-- **What the code leads to is ordered** if the code is. -/
theorem Exec.ordered {rank : L → ℕ} (h : Exec code xs r) (hcode : code.Ordered rank held)
    (hrest : Ordered rank held rest) : Ordered rank held (xs ++ rest) := by
  induction h generalizing held rest with
  | skip | stop | loopEnd | access => exact hrest
  | seq _ _ iha ihb =>
    rw [List.append_assoc]
    exact iha hcode.1 (ihb hcode.2 hrest)
  | seqStop _ iha => exact iha hcode.1 hrest
  | left _ ih => exact ih hcode.1 hrest
  | right _ ih => exact ih hcode.2 hrest
  | choose i _ ih => exact ih (hcode i) hrest
  | loop _ _ ihbody ihloop =>
    rw [List.append_assoc]
    exact ihbody hcode (ihloop hcode hrest)
  | loopStop _ ih | scope _ ih => exact ih hcode hrest
  | @locked m mode body ys _ _ ih =>
    rw [List.cons_append, List.append_assoc, List.singleton_append]
    refine ⟨hcode.1, ih hcode.2 ⟨List.mem_cons_self .., ?_⟩⟩
    rw [List.erase_cons_head]
    exact hrest

end DnsForwarder.Locks
