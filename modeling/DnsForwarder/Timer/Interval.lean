import DnsForwarder.Timer.Alarm

/-!
# When the value for the alarm is one that sets it

`Push` and `Tick` read the clock once more before they compute what is left until a timer expires.
The value is in range and not zero if and only if a microsecond is left then, and it is what is
left, cut to microseconds (`interval_valid_iff`). Nothing makes a microsecond be left: the clock
may have moved on since the timer was made, or since the loop of the handler found it not due.
-/

namespace DnsForwarder.Alarm

/-! ## The value -/

/-- `setitimer` accepts the value and does not stop the timer. -/
def ItValue.Arms (v : ItValue) : Prop :=
  0 ≤ v.tvSec ∧ 0 ≤ v.tvUsec ∧ v.tvUsec < 1000000 ∧ ¬ (v.tvSec = 0 ∧ v.tvUsec = 0)

instance (v : ItValue) : Decidable v.Arms := by
  unfold ItValue.Arms
  infer_instance

/-- The value in microseconds. -/
def ItValue.micros (v : ItValue) : ℤ := v.tvSec * 1000000 + v.tvUsec

/-- What is not negative is cut to microseconds. -/
theorem itValue_micros {left : ℤ} (h : 0 ≤ left) : (itValue left).micros = left / 1000 := by
  rw [itValue_of_nonneg h, ItValue.micros]
  simp only
  omega

/-- **The value sets the alarm if and only if a microsecond is left.** -/
theorem itValue_arms_iff (left : ℤ) : (itValue left).Arms ↔ 1000 ≤ left := by
  by_cases h : 0 ≤ left
  · rw [itValue_of_nonneg h, ItValue.Arms]
    simp only
    omega
  · -- both members are negative or zero
    obtain ⟨m, rfl⟩ : ∃ m, left = -m := ⟨-left, by omega⟩
    rw [itValue_neg, itValue_of_nonneg (by omega), ItValue.Arms]
    simp only
    omega

/-! ## The clock readings -/

/-- In the state `s` a `Push` or a `Tick` may read the clock as `now` and call `SetITimer` for a
timer that expires at `expire`. -/
inductive Sets (s : State) : Time → Time → Prop
  /-- `Push`, for a timer that was made when the clock was read as `put`. -/
  | push {p : Protocol} {timer : Timer} {put now} (hc : s.clock ≤ put)
    (he : timer.expire = put + timeout) (hn : put ≤ now) (h : s.heap p = []) :
    Sets s timer.expire now
  /-- `Tick`, after the loop of the handler that has read the clock as `limit`. -/
  | tick {p ps limit now rest} {top : Timer} (h : s.todo = p :: ps) (hc : s.clock ≤ limit)
    (hl : limit ≤ now) (hpops : Pops (p.due · limit) (s.heap p) rest)
    (htop : TimerHeap.IsTop rest top) (hd : p.due top.expire limit = false) :
    Sets s top.expire now

/-- These are the values that a step hands to `SetITimer`. -/
theorem Sets.step {s : State} {expire now t : Time} (h : Sets s expire now) (ht : now ≤ t) :
    ∃ (i : Input) (r : State), Step i s (r.setITimer (itValue (expire - now)) t) := by
  cases h with
  | @push p timer put _ hc he hn h =>
    refine ⟨.request p timer now t, s.setHeap p [timer], ?_⟩
    have hpush : s.push p timer now t =
        (s.setHeap p [timer]).setITimer (itValue (timer.expire - now)) t := by
      simp [State.push, h, State.setHeap]
    rw [← hpush]
    exact .request hc he hn ht
  | tick h hc hl hpops htop hd => exact ⟨_, _, .tickTop h hc hl ht hpops htop hd⟩

theorem interval_arms_iff (expire now : Time) :
    (itValue (expire - now)).Arms ↔ now + 1000 ≤ expire := by
  rw [itValue_arms_iff, ← Int.ofNat_le]
  change (1000 : ℤ) ≤ expire - now ↔ (now : ℤ) + 1000 ≤ expire
  omega

/-- **When the interval is valid.** Whenever the timer expires and whatever the clock reads, the
value is in range and not zero, and is what is left cut to microseconds if there is a microsecond,
if and only if there is one. -/
theorem interval_valid_iff (expire now : Time) :
    ((itValue (expire - now)).Arms ∧ (1000 ≤ (expire - now : ℤ) →
      (itValue (expire - now)).micros = (expire - now : ℤ) / 1000)) ↔ now + 1000 ≤ expire := by
  rw [interval_arms_iff]
  exact and_iff_left_of_imp fun _ h => itValue_micros (by omega)

/-- The timer of a TCP request, made at the start. -/
def timerC : Timer := ⟨1, 0 + timeout, 0⟩

/-- A `SIGALRM` a second after a TCP request. `TcpTimeoutHandler` reads the clock as the very
nanosecond in which the timer expires, leaves the timer, and stops the alarm. -/
theorem interval_zero :
    ¬ ∀ s, Relation.ReflTransGen AnyStep initial s → ∀ expire now, Sets s expire now →
      (itValue (expire - now)).Arms := by
  intro hclaim
  let s₁ := initial.push .tcp timerC 0 0
  let s₂ := s₁.elapse 1000000000
  let s₃ : State := { s₂ with pending := 0, todo := [.tcp, .udp] }
  have h₁ : Step (.request .tcp timerC 0 0) initial s₁ :=
    .request (Nat.le_refl 0) rfl (Nat.le_refl 0) (Nat.le_refl 0)
  have h₂ : Step (.elapse 1000000000) s₁ s₂ := .elapse (by decide)
  have h₃ : Step (.sigalrm .tcp) s₂ s₃ := .sigalrm rfl rfl
  have hrun : Relation.ReflTransGen AnyStep initial s₃ :=
    ((Relation.ReflTransGen.refl.tail ⟨_, h₁⟩).tail ⟨_, h₂⟩).tail ⟨_, h₃⟩
  have htop : TimerHeap.IsTop [timerC] timerC := by simp [TimerHeap.IsTop]
  have hlimit : s₃.clock ≤ 1000000000 := by decide
  have hset : Sets s₃ timerC.expire 1000000000 :=
    .tick (p := .tcp) rfl hlimit (Nat.le_refl _) .done htop (by decide)
  exact absurd (hclaim s₃ hrun _ _ hset) (by decide)

end DnsForwarder.Alarm
