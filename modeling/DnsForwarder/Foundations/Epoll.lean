import Mathlib.Data.List.Nodup
import Mathlib.Logic.Function.Basic

/-!
# Descriptors and epoll

A process as the kernel sees it: which descriptors it has open, and which of them its epoll instance
watches, each with the pointer that comes with its events, and which calls it has refused. A call
concerns one descriptor, so that calls for different descriptors, one after the other, do to each
what a single call does (`Kernel.done_foldl`), and a sequence of calls falls into stages, each of
which `Kernel.Done` describes. A function that is left as soon as a call is refused makes all of its
calls or comes to the first that is refused (`Kernel.callsWhile_eq`).
-/

namespace DnsForwarder.Epoll

variable {P : Type*}

/-! ## The calls -/

/-- The calls that create, watch and close descriptors. -/
inductive Call (P : Type*)
  | create (fd : ℕ)
  | close (fd : ℕ)
  | epollAddFd (fd : ℕ) (ptr : P)
  | epollDelFd (fd : ℕ)

/-- The open descriptors, and those that are watched with the `data.ptr` of each. -/
structure Kernel (P : Type*) where
  opened : ℕ → Bool
  epoll : ℕ → Option P
  /-- The calls that have failed, the last one at the end. -/
  refused : List (Call P)

namespace Kernel

def create (k : Kernel P) (fd : ℕ) : Kernel P :=
  { k with opened := Function.update k.opened fd true }

def refuse (k : Kernel P) (c : Call P) : Kernel P := { k with refused := k.refused ++ [c] }

/-- `close`, which ends the registration as well. -/
def close (k : Kernel P) (fd : ℕ) : Kernel P :=
  if k.opened fd then
    { k with
      opened := Function.update k.opened fd false
      epoll := Function.update k.epoll fd none }
  else k.refuse (.close fd)

/-- `EPOLL_CTL_ADD`. -/
def epollAddFd (k : Kernel P) (fd : ℕ) (ptr : P) : Kernel P :=
  if k.opened fd && (k.epoll fd).isNone then
    { k with epoll := Function.update k.epoll fd (some ptr) }
  else k.refuse (.epollAddFd fd ptr)

/-- `EPOLL_CTL_DEL`. -/
def epollDelFd (k : Kernel P) (fd : ℕ) : Kernel P :=
  if (k.epoll fd).isSome then { k with epoll := Function.update k.epoll fd none }
  else k.refuse (.epollDelFd fd)

variable {k : Kernel P} {fd : ℕ}

theorem close_of_opened (h : k.opened fd = true) : k.close fd = { k with
    opened := Function.update k.opened fd false
    epoll := Function.update k.epoll fd none } :=
  if_pos h

/-- `close` for a descriptor that is not watched. -/
theorem close_of_unwatched (h : k.opened fd = true) (hepoll : k.epoll fd = none) :
    k.close fd = { k with opened := Function.update k.opened fd false } := by
  rw [close_of_opened h, ← hepoll, Function.update_eq_self]

theorem epollAddFd_of_unwatched (h : k.opened fd = true) (hepoll : k.epoll fd = none) (ptr : P) :
    k.epollAddFd fd ptr = { k with epoll := Function.update k.epoll fd (some ptr) } :=
  if_pos (by rw [h, hepoll]; rfl)

theorem epollDelFd_of_watched {ptr : P} (hepoll : k.epoll fd = some ptr) :
    k.epollDelFd fd = { k with epoll := Function.update k.epoll fd none } :=
  if_pos (by rw [hepoll]; rfl)

theorem epollDelFd_of_unwatched (hepoll : k.epoll fd = none) :
    k.epollDelFd fd = k.refuse (.epollDelFd fd) :=
  if_neg (by rw [hepoll]; exact Bool.false_ne_true)

def call (k : Kernel P) : Call P → Kernel P
  | .create fd => k.create fd
  | .close fd => k.close fd
  | .epollAddFd fd ptr => k.epollAddFd fd ptr
  | .epollDelFd fd => k.epollDelFd fd

def calls (k : Kernel P) (l : List (Call P)) : Kernel P := l.foldl call k

/-- Whether a call fails, with `EBADF`, `EEXIST` or `ENOENT`. -/
def refuses (k : Kernel P) : Call P → Bool
  | .create _ => false
  | .close fd => !k.opened fd
  | .epollAddFd fd _ => !(k.opened fd && (k.epoll fd).isNone)
  | .epollDelFd fd => (k.epoll fd).isNone

/-- One call after the other, until one is refused. -/
def callsWhile (k : Kernel P) : List (Call P) → Kernel P
  | [] => k
  | c :: l => if k.refuses c then k.call c else (k.call c).callsWhile l

theorem refused_call (k : Kernel P) (c : Call P) :
    (k.call c).refused = k.refused ++ if k.refuses c then [c] else [] := by
  cases c with
  | create fd => exact (List.append_nil _).symm
  | close fd =>
    show (k.close fd).refused = k.refused ++ if !k.opened fd then [.close fd] else []
    cases h : k.opened fd <;> simp [close, refuse, h]
  | epollAddFd fd ptr =>
    show (k.epollAddFd fd ptr).refused = k.refused ++
      if !(k.opened fd && (k.epoll fd).isNone) then [.epollAddFd fd ptr] else []
    cases h : k.opened fd && (k.epoll fd).isNone <;> simp [epollAddFd, refuse, h]
  | epollDelFd fd =>
    show (k.epollDelFd fd).refused =
      k.refused ++ if (k.epoll fd).isNone then [.epollDelFd fd] else []
    cases h : k.epoll fd <;> simp [epollDelFd, refuse, h]

/-- What the calls of `l` would be refused. -/
theorem exists_refused (k : Kernel P) (l : List (Call P)) :
    ∃ new, (k.calls l).refused = k.refused ++ new := by
  induction l generalizing k with
  | nil => exact ⟨[], (List.append_nil _).symm⟩
  | cons c l ih =>
    obtain ⟨new, hnew⟩ := ih (k.call c)
    rw [refused_call, List.append_assoc] at hnew
    exact ⟨_, hnew⟩

/-- **All calls are made if none would be refused**, and else those up to the first that is. -/
theorem callsWhile_eq {k : Kernel P} {l new : List (Call P)}
    (hnew : (k.calls l).refused = k.refused ++ new) :
    (new = [] → k.callsWhile l = k.calls l) ∧
      (k.callsWhile l).refused = k.refused ++ new.take 1 := by
  induction l generalizing k new with
  | nil =>
    obtain rfl : new = [] := List.append_right_eq_self.1 hnew.symm
    exact ⟨fun _ => rfl, hnew⟩
  | cons c l ih =>
    have hcall := refused_call k c
    unfold callsWhile
    cases hc : k.refuses c with
    | false =>
      rw [hc] at hcall
      simp only [Bool.false_eq_true, if_false, List.append_nil] at hcall ⊢
      rw [← hcall] at hnew ⊢
      exact ih hnew
    | true =>
      rw [hc] at hcall
      simp only [if_true] at hcall ⊢
      obtain ⟨new', hnew'⟩ := (k.call c).exists_refused l
      rw [hcall, List.append_assoc] at hnew'
      obtain rfl : new = c :: new' := List.append_cancel_left (hnew.symm.trans hnew')
      exact ⟨nofun, hcall⟩

end Kernel

/-! ## One call after the other -/

/-- What a call makes of a descriptor that is open or not and watched or not, and what it is
refused. -/
abbrev Effect (P : Type*) := Bool → Option P → Bool × Option P × List (Call P)

def Effect.create : Effect P := fun _ epoll => (true, epoll, [])

def Effect.close (fd : ℕ) : Effect P := fun opened epoll =>
  (false, if opened then none else epoll, if opened then [] else [.close fd])

def Effect.epollAddFd (fd : ℕ) (ptr : P) : Effect P := fun opened epoll =>
  if opened && epoll.isNone then (opened, some ptr, []) else (opened, epoll, [.epollAddFd fd ptr])

def Effect.epollDelFd (fd : ℕ) : Effect P := fun opened epoll =>
  (opened, none, if epoll.isSome then [] else [.epollDelFd fd])

/-- `EpollDelFd` and `close`. -/
def Effect.remove (fd : ℕ) : Effect P := fun opened epoll =>
  (false, none,
    (if epoll.isSome then [] else [.epollDelFd fd]) ++ if opened then [] else [.close fd])

namespace Kernel

section Each

variable {ι : Type*} (fd : ι → ℕ) (f : ι → Effect P)

/-- A call for the descriptor of `i`. -/
def each (k : Kernel P) (i : ι) : Kernel P :=
  ⟨Function.update k.opened (fd i) (f i (k.opened (fd i)) (k.epoll (fd i))).1,
    Function.update k.epoll (fd i) (f i (k.opened (fd i)) (k.epoll (fd i))).2.1,
    k.refused ++ (f i (k.opened (fd i)) (k.epoll (fd i))).2.2⟩

/-- What calls for the descriptors of `l` have done. -/
structure Done (l : List ι) (k k' : Kernel P) : Prop where
  opened : ∀ i ∈ l, k'.opened (fd i) = (f i (k.opened (fd i)) (k.epoll (fd i))).1
  epoll : ∀ i ∈ l, k'.epoll (fd i) = (f i (k.opened (fd i)) (k.epoll (fd i))).2.1
  opened_eq : ∀ n, n ∉ l.map fd → k'.opened n = k.opened n
  epoll_eq : ∀ n, n ∉ l.map fd → k'.epoll n = k.epoll n
  refused : k'.refused =
    k.refused ++ l.flatMap fun i => (f i (k.opened (fd i)) (k.epoll (fd i))).2.2

variable {fd f} {l : List ι}

/-- **Calls for different descriptors** do not disturb each other. -/
theorem done_foldl (hl : (l.map fd).Nodup) (k : Kernel P) :
    Done fd f l k (l.foldl (each fd f) k) := by
  induction l generalizing k with
  | nil => exact ⟨nofun, nofun, fun _ _ => rfl, fun _ _ => rfl, by simp⟩
  | cons i l ih =>
    obtain ⟨hi, hl⟩ := List.nodup_cons.1 hl
    obtain ⟨hopened, hepoll, hopened_eq, hepoll_eq, hrefused⟩ := ih hl (k.each fd f i)
    have hne : ∀ j ∈ l, fd j ≠ fd i := fun j hj heq => hi (heq ▸ List.mem_map_of_mem hj)
    have hsame : ∀ j ∈ l, (k.each fd f i).opened (fd j) = k.opened (fd j) ∧
        (k.each fd f i).epoll (fd j) = k.epoll (fd j) := fun j hj =>
      ⟨Function.update_of_ne (hne j hj) .., Function.update_of_ne (hne j hj) ..⟩
    refine ⟨?_, ?_, ?_, ?_, ?_⟩
    · rintro j (_ | ⟨_, hj⟩)
      · exact (hopened_eq _ hi).trans (Function.update_self ..)
      · rw [← (hsame j hj).1, ← (hsame j hj).2]
        exact hopened j hj
    · rintro j (_ | ⟨_, hj⟩)
      · exact (hepoll_eq _ hi).trans (Function.update_self ..)
      · rw [← (hsame j hj).1, ← (hsame j hj).2]
        exact hepoll j hj
    · intro n hn
      obtain ⟨hni, hnl⟩ := not_or.1 (List.mem_cons.not.1 hn)
      exact (hopened_eq n hnl).trans (Function.update_of_ne hni ..)
    · intro n hn
      obtain ⟨hni, hnl⟩ := not_or.1 (List.mem_cons.not.1 hn)
      exact (hepoll_eq n hnl).trans (Function.update_of_ne hni ..)
    · have hrest : (l.flatMap fun j => (f j ((k.each fd f i).opened (fd j))
          ((k.each fd f i).epoll (fd j))).2.2) =
          l.flatMap fun j => (f j (k.opened (fd j)) (k.epoll (fd j))).2.2 :=
        List.flatMap_congr fun j hj => by rw [(hsame j hj).1, (hsame j hj).2]
      rw [List.foldl_cons, hrefused, hrest, List.flatMap_cons, ← List.append_assoc]
      rfl

/-- A list of calls for each descriptor. -/
theorem done_flatMap {calls : ι → List (Call P)}
    (hcalls : ∀ k i, (calls i).foldl call k = each fd f k i) (hl : (l.map fd).Nodup)
    (k : Kernel P) : Done fd f l k (k.calls (l.flatMap calls)) := by
  have hfoldl : k.calls (l.flatMap calls) = l.foldl (each fd f) k := by
    rw [Kernel.calls, List.foldl_flatMap]
    simp only [hcalls]
  rw [hfoldl]
  exact done_foldl hl k

theorem done_map {c : ι → Call P} (hcall : ∀ k i, call k (c i) = each fd f k i)
    (hl : (l.map fd).Nodup) (k : Kernel P) : Done fd f l k (k.calls (l.map c)) := by
  rw [List.map_eq_flatMap]
  exact done_flatMap hcall hl k

/-- What has been open before the calls. -/
theorem Done.opened_of {k k' : Kernel P} (h : Done fd f l k k')
    (hf : ∀ i opened epoll, (f i opened epoll).1 = true → opened = true) {n : ℕ}
    (hn : k'.opened n = true) : k.opened n = true := by
  by_cases hmem : n ∈ l.map fd
  · obtain ⟨i, hi, rfl⟩ := List.mem_map.1 hmem
    exact hf i _ _ ((h.opened i hi).symm.trans hn)
  · exact (h.opened_eq n hmem).symm.trans hn

end Each

theorem calls_append (k : Kernel P) (l l' : List (Call P)) :
    k.calls (l ++ l') = (k.calls l).calls l' :=
  List.foldl_append

section Calls

variable {ι : Type*} {fd : ι → ℕ} {l : List ι}

theorem done_create (hl : (l.map fd).Nodup) (k : Kernel P) :
    Done fd (fun _ => .create) l k (k.calls (l.map fun i => .create (fd i))) := by
  refine done_map (fun k i => ?_) hl k
  show k.create (fd i) = _
  simp [create, each, Effect.create]

theorem done_close (hl : (l.map fd).Nodup) (k : Kernel P) :
    Done fd (fun i => .close (fd i)) l k (k.calls (l.map fun i => .close (fd i))) := by
  refine done_map (fun k i => ?_) hl k
  show k.close (fd i) = _
  cases ho : k.opened (fd i) with
  | false =>
    have hopened : Function.update k.opened (fd i) false = k.opened :=
      Function.update_eq_self_iff.2 ho.symm
    simp [close, each, refuse, Effect.close, ho, hopened]
  | true => simp [close, each, Effect.close, ho]

theorem done_epollAddFd (ptr : ι → P) (hl : (l.map fd).Nodup) (k : Kernel P) :
    Done fd (fun i => .epollAddFd (fd i) (ptr i)) l k
      (k.calls (l.map fun i => .epollAddFd (fd i) (ptr i))) := by
  refine done_map (fun k i => ?_) hl k
  show k.epollAddFd (fd i) (ptr i) = _
  cases hadd : k.opened (fd i) && (k.epoll (fd i)).isNone <;>
    simp [epollAddFd, each, refuse, Effect.epollAddFd, hadd]

theorem epollDelFd_eq (fd : ι → ℕ) (k : Kernel P) (i : ι) :
    k.epollDelFd (fd i) = each fd (fun i => .epollDelFd (fd i)) k i := by
  cases he : k.epoll (fd i) with
  | none =>
    have hepoll : Function.update k.epoll (fd i) none = k.epoll :=
      Function.update_eq_self_iff.2 he.symm
    simp [epollDelFd, each, refuse, Effect.epollDelFd, he, hepoll]
  | some => simp [epollDelFd, each, Effect.epollDelFd, he]

theorem done_epollDelFd (hl : (l.map fd).Nodup) (k : Kernel P) :
    Done fd (fun i => .epollDelFd (fd i)) l k (k.calls (l.map fun i => .epollDelFd (fd i))) :=
  done_map (c := fun i => .epollDelFd (fd i)) (fun k i => epollDelFd_eq fd k i) hl k

theorem done_remove {fds : List ℕ} (hfds : fds.Nodup) (k : Kernel P) :
    Done id .remove fds k (k.calls (fds.flatMap fun fd => [.epollDelFd fd, .close fd])) := by
  refine done_flatMap (fun k fd => ?_) ((List.map_id fds).symm ▸ hfds) k
  have hdel : k.epollDelFd fd = each id .epollDelFd k fd := epollDelFd_eq id k fd
  show (k.epollDelFd fd).close fd = _
  rw [hdel]
  cases ho : k.opened fd with
  | false =>
    have hopened : Function.update k.opened fd false = k.opened :=
      Function.update_eq_self_iff.2 ho.symm
    simp [close, each, refuse, Effect.epollDelFd, Effect.remove, ho, hopened]
  | true => simp [close, each, Effect.epollDelFd, Effect.remove, ho]

end Calls

end Kernel

end DnsForwarder.Epoll
