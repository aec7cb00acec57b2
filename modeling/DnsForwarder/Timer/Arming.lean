import DnsForwarder.Foundations.Interleaving
import DnsForwarder.Timer.Interval

/-!
# Whether concurrent pushes arm the alarm

`Push` inserts its timer and then asks for the size of the heap, in a critical section of its own:
the alarm is left to the worker that finds its timer alone. If a second timer is inserted in
between, both workers find two timers and nobody arms the alarm (`alarm_left_disarmed`).

The pushes arm the alarm if the first one reads the size before a second timer is inserted, and the
clock while a microsecond is left; a step that misses this loses the alarm for good (`pushes_arm`).
-/

namespace DnsForwarder.Alarm

open Interleaving

/-! ## The pushes -/

/-- One heap of timers and what its pushes have made of the alarm. -/
structure Pushed where
  heap : TimerHeap
  /-- Whether a call of `SetITimer` has armed `ITIMER_REAL`. -/
  armed : Bool
  clock : Time

/-- Where a worker is in `TimerHeap::Push`. -/
inductive Pusher
  /-- Before the insertion. -/
  | insert (timer : Timer)
  /-- Before `Size`. -/
  | size (timer : Timer)
  /-- `Size` has returned 1: before the clock is read. -/
  | read (timer : Timer)
  /-- The clock was read as `now`: before `SetITimer`. -/
  | arm (timer : Timer) (now : Time)
  /-- `Push` is over, whether `SetITimer` has raised or not. -/
  | finished

namespace Pusher

/-- The steps of `Push`. -/
inductive Act : Action Pushed Pusher
  | insert {s timer} : Act (.insert timer) s (.size timer) { s with heap := timer :: s.heap }
  | sizeOne {s timer} (h : s.heap.length = 1) : Act (.size timer) s (.read timer) s
  | sizeMany {s timer} (h : s.heap.length ≠ 1) : Act (.size timer) s .finished s
  | read {s timer now} (hc : s.clock ≤ now) :
    Act (.read timer) s (.arm timer now) { s with clock := now }
  | arm {s timer now} : Act (.arm timer now) s .finished
      { s with armed := s.armed || decide (itValue (timer.expire - now)).Arms }

/-- It is up to this worker to arm the alarm. -/
def Chosen : Pusher → Prop
  | read _ | arm _ _ => True
  | _ => False

end Pusher

variable {W : Type*} [DecidableEq W] {timers : W → Timer} {c d : Config W Pushed Pusher}

/-- Each worker is about to push its timer into the empty heap; the alarm is not armed. -/
def pushing (timers : W → Timer) : Config W Pushed Pusher :=
  ⟨⟨[], false, 0⟩, fun w => .insert (timers w)⟩

/-- The condition that a second timer is not inserted while a worker is still to read the size,
and that `SetITimer` is called for a clock reading that has left a microsecond. -/
def InTime (w : W) (c : Config W Pushed Pusher) : Prop :=
  (∀ timer, c.procs w = .insert timer → c.shared.heap.length = 1 →
    ∀ v u, c.procs v ≠ .size u) ∧
  ∀ timer now, c.procs w = .arm timer now → now + 1000 ≤ timer.expire

/-! ## What holds in every interleaving -/

/-- The heap is empty before the first insertion and has one timer before the second one; it is up
to at most one worker to arm the alarm, and nobody does after it. -/
structure Orderly (c : Config W Pushed Pusher) : Prop where
  none_inserted : c.shared.heap = [] → ∀ v, ∃ t, c.procs v = .insert t
  one_inserted : c.shared.heap.length = 1 → ∃ u, ∀ v, v ≠ u → ∃ t, c.procs v = .insert t
  chosen_unique : ∀ v u, (c.procs v).Chosen → (c.procs u).Chosen → v = u
  chosen_unarmed : ∀ v, (c.procs v).Chosen → c.shared.armed = false
  armed_finished : c.shared.armed = true → ∃ v, c.procs v = .finished

namespace Orderly

/-- While there is one timer in the heap, all but its worker are before their insertion. -/
theorem insert_of_ne (h : Orderly c) (hone : c.shared.heap.length = 1) {v w : W}
    (hw : ∀ t, c.procs w ≠ .insert t) (hv : v ≠ w) : ∃ t, c.procs v = .insert t := by
  obtain ⟨u, hu⟩ := h.one_inserted hone
  have huw : w = u := by
    by_contra hne
    obtain ⟨t, ht⟩ := hu w hne
    exact hw t ht
  exact hu v (huw ▸ hv)

/-- A worker that reads the size of a heap with one timer finds the alarm to be nobody's yet. -/
theorem unarmed_of_size (h : Orderly c) (hone : c.shared.heap.length = 1) {w : W} {t : Timer}
    (hw : c.procs w = .size t) : c.shared.armed = false ∧ ∀ v, ¬ (c.procs v).Chosen := by
  have hother : ∀ v, v ≠ w → ∃ t, c.procs v = .insert t := fun v hv =>
    h.insert_of_ne hone (by simp [hw]) hv
  constructor
  · by_contra harmed
    obtain ⟨v, hv⟩ := h.armed_finished (Bool.not_eq_false _ ▸ harmed)
    by_cases hvw : v = w
    · rw [hvw, hw] at hv
      cases hv
    · obtain ⟨t', ht'⟩ := hother v hvw
      cases ht'.symm.trans hv
  · intro v hv
    by_cases hvw : v = w
    · rw [hvw, hw] at hv
      exact hv
    · obtain ⟨t', ht'⟩ := hother v hvw
      rw [ht'] at hv
      exact hv

/-- A step of a worker that leaves the heap as it is, from behind its insertion. -/
theorem insert_update (h : Orderly c) {w : W} {l : Pusher} {s : Pushed}
    (hheap : s.heap = c.shared.heap) (hw : ∀ t, c.procs w ≠ .insert t) :
    (s.heap = [] → ∀ v, ∃ t, Function.update c.procs w l v = .insert t) ∧
      (s.heap.length = 1 → ∃ u, ∀ v, v ≠ u →
        ∃ t, Function.update c.procs w l v = .insert t) := by
  rw [hheap]
  constructor
  · intro hempty
    obtain ⟨t, ht⟩ := h.none_inserted hempty w
    exact absurd ht (hw t)
  · intro hone
    refine ⟨w, fun v hv => ?_⟩
    rw [Function.update_of_ne hv]
    exact h.insert_of_ne hone hw hv

/-- A worker that is finished stays so, as the one that moves was not. -/
theorem finished_update {w : W} {l : Pusher} (hfin : ∃ v, c.procs v = .finished)
    (hw : c.procs w ≠ .finished) : ∃ v, Function.update c.procs w l v = .finished := by
  obtain ⟨v, hv⟩ := hfin
  refine ⟨v, ?_⟩
  rw [Function.update_of_ne, hv]
  rintro rfl
  exact hw hv

/-- If the worker that moves is not chosen, the others are as they were. -/
theorem chosen_update {w : W} {l : Pusher} (hl : ¬ l.Chosen) {v : W}
    (hv : (Function.update c.procs w l v).Chosen) : v ≠ w ∧ (c.procs v).Chosen := by
  by_cases hvw : v = w
  · subst hvw
    rw [Function.update_self] at hv
    exact absurd hv hl
  · rw [Function.update_of_ne hvw] at hv
    exact ⟨hvw, hv⟩

/-- After a step from behind the insertion it may be up to its worker, if it is up to no other. -/
theorem of_chosen (h : Orderly c) {w : W} {l : Pusher} {s : Pushed}
    (hheap : s.heap = c.shared.heap) (hw : ∀ t, c.procs w ≠ .insert t) (harmed : s.armed = false)
    (hother : ∀ v, v ≠ w → ¬ (c.procs v).Chosen) : Orderly ⟨s, Function.update c.procs w l⟩ := by
  obtain ⟨h₁, h₂⟩ := h.insert_update (l := l) hheap hw
  have hchosen : ∀ v, (Function.update c.procs w l v).Chosen → v = w := by
    intro v hv
    by_contra hvw
    rw [Function.update_of_ne hvw] at hv
    exact hother v hvw hv
  exact ⟨h₁, h₂, fun v u hv hu => (hchosen v hv).trans (hchosen u hu).symm, fun _ _ => harmed,
    fun ha => absurd (harmed.symm.trans ha) Bool.false_ne_true⟩

/-- **Every step keeps the order.** -/
theorem step (h : Orderly c) {w : W} {l : Pusher} {s : Pushed}
    (hA : Pusher.Act (c.procs w) c.shared l s) : Orderly ⟨s, Function.update c.procs w l⟩ := by
  generalize hw : c.procs w = m at hA
  cases hA with
  | @insert _ timer =>
    have hl : ¬ (Pusher.size timer).Chosen := id
    refine ⟨fun hempty => absurd hempty (List.cons_ne_nil _ _),
      fun hone => ⟨w, fun v hv => ?_⟩, fun v u hv hu => ?_,
      fun v hv => h.chosen_unarmed v (chosen_update hl hv).2,
      fun ha => finished_update (h.armed_finished ha) (by simp [hw])⟩
    · simp only [Function.update_of_ne hv]
      exact h.none_inserted (by simpa using hone) v
    · exact h.chosen_unique v u (chosen_update hl hv).2 (chosen_update hl hu).2
  | @sizeOne _ timer hone =>
    obtain ⟨hunarmed, hnone⟩ := h.unarmed_of_size hone hw
    exact h.of_chosen rfl (by simp [hw]) hunarmed fun v _ => hnone v
  | @sizeMany _ timer hmany =>
    have hl : ¬ Pusher.finished.Chosen := id
    obtain ⟨h₁, h₂⟩ := h.insert_update (w := w) (l := .finished) rfl (by simp [hw])
    exact ⟨h₁, h₂,
      fun v u hv hu => h.chosen_unique v u (chosen_update hl hv).2 (chosen_update hl hu).2,
      fun v hv => h.chosen_unarmed v (chosen_update hl hv).2,
      fun _ => ⟨w, Function.update_self ..⟩⟩
  | @read _ timer now hc =>
    have hwc : (c.procs w).Chosen := by rw [hw]; trivial
    exact h.of_chosen (s := { c.shared with clock := now }) rfl (by simp [hw])
      (h.chosen_unarmed w hwc) fun v hv hch => hv (h.chosen_unique v w hch hwc)
  | @arm _ timer now =>
    have hwc : (c.procs w).Chosen := by rw [hw]; trivial
    have hl : ¬ Pusher.finished.Chosen := id
    obtain ⟨h₁, h₂⟩ := h.insert_update (w := w) (l := .finished)
      (s := { c.shared with armed := c.shared.armed || decide (itValue (timer.expire - now)).Arms })
      rfl (by simp [hw])
    -- no other worker is chosen
    have hnone : ∀ v, ¬ (Function.update c.procs w .finished v).Chosen := fun v hv =>
      (chosen_update hl hv).1 (h.chosen_unique v w (chosen_update hl hv).2 hwc)
    exact ⟨h₁, h₂, fun v _ hv => absurd hv (hnone v), fun v hv => absurd hv (hnone v),
      fun _ => ⟨w, Function.update_self ..⟩⟩

end Orderly

theorem orderly {C : W → Config W Pushed Pusher → Prop}
    (h : Reaches Pusher.Act C (pushing timers) c) : Orderly c := by
  refine h.invariant ⟨fun _ v => ⟨_, rfl⟩, fun hone => absurd hone Nat.zero_ne_one,
    fun v _ hv => absurd hv id, fun _ _ => rfl, fun ha => absurd ha Bool.false_ne_true⟩ ?_
  intro d w l s _ hd _ hA
  exact hd.step hA

/-! ## Pushes in time -/

/-- The alarm is armed, or it is up to a worker to arm it, or a worker is going to find its timer
alone. -/
def Awake (c : Config W Pushed Pusher) : Prop :=
  (c.shared.heap.length = 1 ∧ ∃ v t, c.procs v = .size t) ∨ (∃ v, (c.procs v).Chosen) ∨
    c.shared.armed = true

/-- The first insertion brings it up to a worker, and a step in time leaves it so. -/
theorem Awake.step (h : c.shared.heap = [] ∨ Awake c) (ho : Orderly c) {w : W} {l : Pusher}
    {s : Pushed} (hC : InTime w c) (hA : Pusher.Act (c.procs w) c.shared l s) :
    Awake ⟨s, Function.update c.procs w l⟩ := by
  have hself : Function.update c.procs w l w = l := Function.update_self ..
  -- a worker that is chosen and does not move stays so
  have hstay : ¬ (c.procs w).Chosen → ∀ v, (c.procs v).Chosen →
      Awake ⟨s, Function.update c.procs w l⟩ := by
    intro hnot v hv
    have hvw : v ≠ w := by
      rintro rfl
      exact hnot hv
    exact .inr (.inl ⟨v, by simpa [hvw] using hv⟩)
  generalize hw : c.procs w = m at hA
  have hne : (∀ t, m ≠ .insert t) → c.shared.heap ≠ [] := by
    intro hm hempty
    obtain ⟨t, ht⟩ := ho.none_inserted hempty w
    exact hm t (hw.symm.trans ht)
  cases hA with
  | @insert _ timer =>
    rcases h with hempty | ⟨hone, v, t, hv⟩ | ⟨v, hv⟩ | harmed
    · exact .inl ⟨by simp [hempty], w, timer, hself⟩
    · exact absurd hv (hC.1 timer hw hone v t)
    · exact hstay (by rw [hw]; exact id) v hv
    · exact .inr (.inr harmed)
  | sizeOne => exact .inr (.inl ⟨w, by simp only [hself]; trivial⟩)
  | @sizeMany _ timer hmany =>
    rcases h with hempty | ⟨hone, -⟩ | ⟨v, hv⟩ | harmed
    · exact absurd hempty (hne (by simp))
    · exact absurd hone hmany
    · exact hstay (by rw [hw]; exact id) v hv
    · exact .inr (.inr harmed)
  | read => exact .inr (.inl ⟨w, by simp only [hself]; trivial⟩)
  | @arm _ timer now =>
    have hleft := hC.2 timer now hw
    have harms := ((interval_arms_iff timer.expire now).2 hleft)
    exact .inr (.inr (by simp [harms]))

theorem awake (h : Reaches Pusher.Act InTime (pushing timers) c) :
    c.shared.heap = [] ∨ Awake c := by
  refine h.invariant (I := fun d => d.shared.heap = [] ∨ Awake d) (.inl rfl) ?_
  intro d w l s hr hd hC hA
  exact .inr (Awake.step hd (orderly hr) hC hA)

/-! ## A step that is not in time -/

/-- Nobody has armed the alarm, and nobody will. -/
structure Lost (c : Config W Pushed Pusher) : Prop where
  inserted : c.shared.heap ≠ []
  unarmed : c.shared.armed = false
  none_chosen : ∀ v, ¬ (c.procs v).Chosen
  size_ne_one : c.shared.heap.length = 1 → ∀ v t, c.procs v ≠ .size t

/-- What is lost stays lost, whatever the workers do. -/
theorem Lost.step (h : Lost c) {w : W} {l : Pusher} {s : Pushed}
    (hA : Pusher.Act (c.procs w) c.shared l s) : Lost ⟨s, Function.update c.procs w l⟩ := by
  generalize hw : c.procs w = m at hA
  cases hA with
  | @insert _ timer =>
    refine ⟨List.cons_ne_nil _ _, h.unarmed,
      fun v hv => h.none_chosen v (Orderly.chosen_update (l := .size timer) id hv).2,
      fun hone => ?_⟩
    exact absurd (by simpa using hone) h.inserted
  | @sizeOne _ timer hone => exact absurd hw (h.size_ne_one hone w timer)
  | @sizeMany _ timer hmany =>
    exact ⟨h.inserted, h.unarmed,
      fun v hv => h.none_chosen v (Orderly.chosen_update (l := .finished) id hv).2,
      fun hone => absurd hone hmany⟩
  | read => exact absurd (by rw [hw]; trivial) (h.none_chosen w)
  | arm => exact absurd (by rw [hw]; trivial) (h.none_chosen w)

theorem Lost.run (h : Lost c) (hr : Reaches Pusher.Act Free c d) : Lost d := by
  apply hr.invariant h
  intro e w l s _ he _ hA
  exact he.step hA

/-- **A step that is not in time loses the alarm.** -/
theorem Orderly.lost (h : Orderly c) {w : W} {l : Pusher} {s : Pushed} (hC : ¬ InTime w c)
    (hA : Pusher.Act (c.procs w) c.shared l s) : Lost ⟨s, Function.update c.procs w l⟩ := by
  rw [InTime, not_and_or] at hC
  push Not at hC
  generalize hw : c.procs w = m at hA hC
  rcases hC with ⟨timer, rfl, hone, v, t, hv⟩ | ⟨timer, now, rfl, hleft⟩
  · -- a second timer is inserted before the size is read
    cases hA
    obtain ⟨hunarmed, hnone⟩ := h.unarmed_of_size hone hv
    exact ⟨List.cons_ne_nil _ _, hunarmed,
      fun u hu => hnone u (chosen_update (l := .size timer) id hu).2,
      fun htwo => absurd htwo (by simp [hone])⟩
  · -- the value for the alarm is zero or negative
    cases hA
    have hwc : (c.procs w).Chosen := by rw [hw]; trivial
    have harms : ¬ (itValue (timer.expire - now)).Arms := fun ha =>
      absurd ((interval_arms_iff timer.expire now).1 ha) (Nat.not_le.2 hleft)
    refine ⟨fun hempty => ?_, by simp [harms, h.chosen_unarmed w hwc], fun u hu => ?_,
      fun hone u t hu => ?_⟩
    · obtain ⟨t, ht⟩ := h.none_inserted hempty w
      cases hw.symm.trans ht
    · obtain ⟨hne, hu⟩ := chosen_update (l := .finished) id hu
      exact hne (h.chosen_unique u w hu hwc)
    · by_cases huw : u = w
      · subst huw
        simp only [Function.update_self] at hu
        cases hu
      · obtain ⟨t', ht'⟩ := h.insert_of_ne hone (by simp [hw]) huw
        simp only [Function.update_of_ne huw, ht'] at hu
        cases hu

/-- **Concurrent pushes arm the alarm if they are in time.** Any number of workers push a timer
each into an empty heap, in any order of their steps. In a run whose steps are all in time, the
alarm has been armed when all pushes are over. After a step that is not in time it is not armed,
whatever follows. -/
theorem pushes_arm [Nonempty W] (h : Reaches Pusher.Act InTime (pushing timers) c) :
    ((∀ w, c.procs w = .finished) → c.shared.armed = true) ∧
    ∀ w l s d, Pusher.Act (c.procs w) c.shared l s → ¬ InTime w c →
      Reaches Pusher.Act Free ⟨s, Function.update c.procs w l⟩ d → d.shared.armed = false := by
  have ho := orderly h
  refine ⟨fun hdone => ?_, fun w l s d hA hC hr => ((ho.lost hC hA).run hr).unarmed⟩
  rcases awake h with hempty | ⟨-, v, t, hv⟩ | ⟨v, hv⟩ | harmed
  · obtain ⟨t, ht⟩ := ho.none_inserted hempty (Classical.arbitrary W)
    cases (hdone _).symm.trans ht
  · cases (hdone v).symm.trans hv
  · rw [hdone v] at hv
    exact absurd hv id
  · exact harmed

/-- Two pushes, the second of which comes when the first one has read the size. -/
theorem pushes_arm_two : ∃ c : Config Bool Pushed Pusher,
    c.shared.heap = [timerB, timerA] ∧ (∀ w, c.procs w = .finished) ∧ c.shared.armed = true := by
  have h₀ : Reaches Pusher.Act InTime (pushing fun b : Bool => if b then timerB else timerA) _ :=
    .refl
  have h₁ := h₀.step (w := false) ⟨by simp [pushing], by simp [pushing]⟩ .insert
  have h₂ := h₁.step (w := false) ⟨by simp, by simp⟩ (.sizeOne rfl)
  have h₃ := h₂.step (w := true) ⟨by simp [pushing], by simp [pushing]⟩ .insert
  have h₄ := h₃.step (w := true) ⟨by simp, by simp⟩ (.sizeMany (by decide))
  have h₅ := h₄.step (w := false) ⟨by simp, by simp⟩ (.read (Nat.le_refl 0))
  have h₆ := h₅.step (w := false) ⟨by simp, by simp; decide⟩ .arm
  exact ⟨_, rfl, fun w => by cases w <;> rfl, (pushes_arm h₆).1 fun w => by cases w <;> rfl⟩

/-- Two workers insert their timers before either of them reads the size. -/
theorem alarm_left_disarmed :
    ¬ ∀ c, Reaches Pusher.Act Free (pushing fun b : Bool => if b then timerB else timerA) c →
      (∀ w, c.procs w = .finished) → c.shared.armed = true := by
  intro hclaim
  have h₀ : Reaches Pusher.Act Free (pushing fun b : Bool => if b then timerB else timerA) _ :=
    .refl
  have h₁ := h₀.step (w := false) trivial .insert
  have h₂ := h₁.step (w := true) trivial .insert
  have h₃ := h₂.step (w := false) trivial (.sizeMany (by decide))
  have h₄ := h₃.step (w := true) trivial (.sizeMany (by decide))
  have harmed := hclaim _ h₄ fun w => by cases w <;> rfl
  cases harmed

end DnsForwarder.Alarm
