import DnsForwarder.Workers.Answers
import DnsForwarder.Workers.Runs

/-!
# How a query is forwarded

One worker at most serves a query: from its reception until the last nameserver was sent to. So what
has been forwarded of a query is a first part of the nameservers in their order, with the same bytes
for each, and these encode the query under the index of the slot that it was put into
(`Shared.Forwarded`). A worker that comes to the end of the nameservers has left none out.
-/

namespace DnsForwarder

open Interleaving

variable {P : Transport}

/-! ## What has been forwarded -/

/-- What was handed over for a nameserver of the query at `a`. -/
def Event.forwarded (a : Addr) : Event P → Option (P.Remote × Bytes)
  | forward b remote data => if b = a then some (remote, data) else none
  | _ => none

/-- What was forwarded of the query at `a`, in order. -/
def Shared.forwards (a : Addr) (s : Shared P) : List (P.Remote × Bytes) :=
  s.log.reverse.filterMap (Event.forwarded a)

theorem Shared.forwards_congr {s s' : Shared P} (h : s'.log = s.log) (a : Addr) :
    s'.forwards a = s.forwards a := by
  rw [forwards, h, forwards]

theorem Shared.forwards_cons {s s' : Shared P} {e : Event P} (h : s'.log = e :: s.log) (a : Addr) :
    s'.forwards a = s.forwards a ++ (e.forwarded a).toList := by
  rw [forwards, h, forwards, List.reverse_cons, List.filterMap_append]
  cases he : e.forwarded a <;> simp [he]

/-- What was forwarded of the query at `a` went to a first part of the nameservers, each once, and
is the encoding of the query under the index of its slot. -/
def Shared.Forwarded (a : Addr) (s : Shared P) : Prop :=
  s.forwards a = [] ∨ ∃ sent rest client packet timer data, P.targets (sent ++ rest) ∧
    s.forwards a = sent.map (·, data) ∧ .query a client packet ∈ s.log ∧
    .put a timer ∈ s.log ∧ (packet.withId timer.index).Serializes data

namespace Worker

/-! ## The worker that serves a query -/

/-- The task of the query that a worker has received and is still to forward. -/
def serving : Worker P → Option (Task P.Client)
  | putPop t | putStore t _ | pushInsert t _ | pushSize t _ | pushArm t _ | encode t _
  | forward t _ _ => some t
  | _ => none

/-- Whether the worker serves the query at `a`. -/
def serves (a : Addr) (l : Worker P) : ℕ := (l.serving.any (·.addr == a)).toNat

@[simp] theorem skip_serving (job : Job P) : job.skip.serving = none := by cases job <;> rfl
@[simp] theorem again_serving (job : Job P) : job.again.serving = none := by cases job <;> rfl

variable {l l' m : Worker P} {s s' : Shared P} {now : Time}

theorem Move.serving_eq (h : Move s now l l') : l'.serving = l.serving := by
  cases h <;> first | rfl | exact skip_serving _

theorem Drop.serving_eq {t : Task P.Client} (h : Drop l t l') : l'.serving = none := by
  cases h <;> first | rfl | exact skip_serving _ | exact again_serving _

/-- A step makes a worker serve a query only if it has just received it. -/
theorem Act.serves_le (h : Act l s l' s') (a : Addr) :
    l'.serves a + s.queries a ≤ l.serves a + s'.queries a := by
  cases h with
  | move _ h => rw [serves, h.serving_eq]; exact le_rfl
  | serverReceive =>
    simp only [serves, serving, Shared.queries, Shared.makeTask_log, List.countP_cons,
      Event.isQuery, Option.any_some, Option.any_none]
    by_cases ha : s.next = a <;> simp [ha]
    omega
  | storeTask => simp [serves, serving, Shared.queries, Event.isQuery]
  | forward | answer => simp [serves, serving, Shared.queries, Event.isQuery]
  | delTaskSome => simp [serves, serving, Shared.queries]
  | drop h =>
    rw [serves, h.serving_eq, Option.any_none, Bool.toNat_false, Nat.zero_add]
    exact Nat.le_add_left _ _
  | _ => exact le_rfl

/-! ## How far it has come -/

/-- How much has been forwarded of the query that a worker serves. -/
def Forwarding (s : Shared P) : Worker P → Prop
  | putPop t | putStore t _ => s.forwards t.addr = []
  | pushInsert t timer | pushSize t timer | pushArm t timer =>
    s.forwards t.addr = [] ∧ t.timer = some timer
  | encode t index => s.forwards t.addr = [] ∧ ∃ timer, t.timer = some timer ∧ timer.index = index
  | forward t data todo => ∃ sent timer, P.targets (sent ++ todo) ∧
      s.forwards t.addr = sent.map (·, data) ∧ t.timer = some timer ∧
      (t.queryPacket.withId timer.index).Serializes data
  | _ => True

/-- A worker that serves no query has nothing to say. -/
theorem Forwarding.of_serving (h : l.serving = none) : l.Forwarding s := by
  cases l <;> trivial

/-- What is forwarded of other queries does not matter. -/
theorem Forwarding.congr (h : l.Forwarding s)
    (hlog : ∀ t, l.serving = some t → s'.forwards t.addr = s.forwards t.addr) :
    l.Forwarding s' := by
  cases l <;> first | trivial | (simp only [Forwarding, hlog _ rfl] at h ⊢; exact h)

theorem Move.forwarding (h : Move s now l l') (hl : l.Forwarding s) : l'.Forwarding s := by
  cases h with
  | pushSizeOne => exact hl
  | pushSizeMany => exact ⟨hl.1, _, hl.2, rfl⟩
  | pushArm => exact ⟨hl.1, _, hl.2, rfl⟩
  | encode h ht =>
    obtain ⟨hnone, timer, htimer, rfl⟩ := hl
    exact ⟨[], timer, ht, hnone, htimer, h⟩
  | hasTaskFalse => exact .of_serving (skip_serving _)
  | _ => trivial

/-- **A step keeps how far its worker has come with its query.** -/
theorem Act.forwarding (h : Act l s l' s') (hl : l.Forwarding s)
    (hnext : s.forwards s.next = []) : l'.Forwarding s' := by
  cases h with
  | move _ h => exact h.forwarding hl
  | serverReceive => exact (Shared.forwards_cons rfl _).trans (by rw [hnext]; rfl)
  | popIndex => exact hl
  | storeTask => exact ⟨(Shared.forwards_cons rfl _).trans (by rw [hl]; rfl), rfl⟩
  | pushInsert => exact hl
  | @forward _ t data r todo =>
    obtain ⟨sent, timer, htargets, hsent, htimer, hdata⟩ := hl
    refine ⟨sent ++ [r], timer, by rwa [List.append_assoc], ?_, htimer, hdata⟩
    rw [Shared.forwards_cons rfl, hsent, List.map_append]
    simp [Event.forwarded]
  | drop h => exact .of_serving h.serving_eq
  | _ => trivial

/-- A step forwards only what its worker serves. -/
theorem Act.forwards_eq (h : Act l s l' s') {a : Addr} (ha : ∀ t, l.serving = some t → t.addr ≠ a) :
    s'.forwards a = s.forwards a := by
  cases h with
  | serverReceive | storeTask | answer =>
    rw [Shared.forwards_cons rfl]
    exact List.append_nil _
  | @forward _ t =>
    rw [Shared.forwards_cons rfl, Event.forwarded, if_neg (ha t rfl)]
    exact List.append_nil _
  | delTaskSome => exact Shared.forwards_congr (by simp) a
  | _ => exact Shared.forwards_congr rfl a


/-- What was forwarded of a query changes only while a worker sends it. -/
theorem Act.forwards_eq_or (h : Act l s l' s') (a : Addr) :
    s'.forwards a = s.forwards a ∨ ∃ t data todo, l' = .forward t data todo ∧ t.addr = a := by
  by_cases ha : ∀ t, l.serving = some t → t.addr ≠ a
  · exact .inl (h.forwards_eq ha)
  · cases h with
    | @forward _ t data r todo =>
      refine .inr ⟨t, data, todo, rfl, ?_⟩
      by_contra hne
      exact ha fun u hu => by cases hu; exact hne
    | serverReceive | storeTask | answer =>
      refine .inl ?_
      rw [Shared.forwards_cons rfl]
      exact List.append_nil _
    | delTaskSome => exact .inl (Shared.forwards_congr (by simp) a)
    | _ => exact .inl (Shared.forwards_congr rfl a)

/-- What is known of the forwarding of a query is not lost. -/
theorem Act.forwarded_mono (h : Act l s l' s') {a : Addr} (ha : s.Forwarded a)
    (heq : s'.forwards a = s.forwards a) : s'.Forwarded a := by
  unfold Shared.Forwarded
  rw [heq]
  refine ha.imp_right ?_
  rintro ⟨sent, rest, client, packet, timer, data, h₁, h₂, h₃, h₄, h₅⟩
  exact ⟨sent, rest, client, packet, timer, data, h₁, h₂, h.mem_log h₃, h.mem_log h₄, h₅⟩

/-- The query that a worker is about to send has been forwarded as far as it knows. -/
theorem Forwarding.forwarded {t : Task P.Client} {data : Bytes} {todo : List P.Remote}
    (hl : (forward t data todo).Forwarding s) (hheld : (forward t data todo).Held s) :
    s.Forwarded t.addr := by
  obtain ⟨sent, timer, htargets, hsent, htimer, hdata⟩ := hl
  exact .inr ⟨sent, todo, t.client, t.queryPacket, timer, data, htargets, hsent,
    hheld.task_query rfl, hheld.task_put rfl htimer, hdata⟩

end Worker

section Run

variable {W : Type*} [DecidableEq W] [Fintype W] {C : W → Config W (Shared P) (Worker P) → Prop}
  {c : Config W (Shared P) (Worker P)}

/-- Two workers serve different queries. -/
theorem serving_ne (h : Reaches Worker.Act C (initial P W) c) {v w : W} (hvw : v ≠ w)
    {t u : Task P.Client} (ht : (c.procs v).serving = some t) (hu : (c.procs w).serving = some u) :
    t.addr ≠ u.addr := by
  intro heq
  have hle : total (Worker.serves t.addr) (fun _ => 0) c ≤ c.shared.queries t.addr := by
    refine h.total_le (f := Worker.serves t.addr) (g := fun _ => 0)
      (q := fun s => s.queries t.addr) ?_ fun d w l s _ _ hA => hA.serves_le t.addr
    simp [total, initial, Shared.initial, Worker.serves, Worker.serving]
  have htwo := add_le_total (Worker.serves t.addr) (fun _ => 0) c hvw
  have hqueries := queries_le_one h t.addr
  have hv : (c.procs v).serves t.addr = 1 := by simp [Worker.serves, ht]
  have hw : (c.procs w).serves t.addr = 1 := by simp [Worker.serves, hu, heq]
  omega

/-- **How far every query has been forwarded**, and how far every worker has come. -/
theorem forwarding (h : Reaches Worker.Act C (initial P W) c) :
    (∀ a, c.shared.Forwarded a) ∧ ∀ w, (c.procs w).Forwarding c.shared := by
  refine h.invariant (I := fun d => (∀ a, d.shared.Forwarded a) ∧
    ∀ w, (d.procs w).Forwarding d.shared) ⟨fun a => .inl rfl, fun w => trivial⟩ ?_
  intro d w l s hr ⟨hglobal, hlocal⟩ hC hA
  obtain ⟨hs, hheld⟩ := history hr
  -- no query has the address that is given out next
  have hnext : d.shared.forwards d.shared.next = [] := by
    refine (hglobal d.shared.next).resolve_right ?_
    rintro ⟨sent, rest, client, packet, timer, data, -, -, hquery, -⟩
    exact absurd (hs.query_lt hquery) (lt_irrefl _)
  have hl := hA.forwarding (hlocal w) hnext
  refine ⟨fun a => ?_, fun v => ?_⟩
  · rcases hA.forwards_eq_or a with heq | ⟨t, data, todo, rfl, rfl⟩
    · exact hA.forwarded_mono (hglobal a) heq
    · exact hl.forwarded (hA.held hs (hheld w))
  · by_cases hv : v = w
    · subst hv
      simpa using hl
    · simp only [Function.update_of_ne hv]
      refine (hlocal v).congr fun t ht => hA.forwards_eq fun u hu => ?_
      exact (serving_ne hr hv ht hu).symm

/-- **Every query is forwarded once to each nameserver.** In any interleaving of any number of
workers: what has been forwarded of a query went to a first part of the nameservers, in their order
and to each once, IPv4 before IPv6, with the same bytes for each. These encode the query with its ID
replaced by the index of the slot that `PutTask` chose for it. And a worker that is done with a
query, without an exception, has left no nameserver out. -/
theorem forwarded_once {remoteAddr4 : List SockAddrIn} {remoteAddr6 : List SockAddrIn6}
    {C : W → Config W (Shared (.udp remoteAddr4 remoteAddr6))
      (Worker (.udp remoteAddr4 remoteAddr6)) → Prop}
    {c : Config W (Shared (.udp remoteAddr4 remoteAddr6)) (Worker (.udp remoteAddr4 remoteAddr6))}
    (h : Reaches Worker.Act C (initial (.udp remoteAddr4 remoteAddr6) W) c) :
    (∀ a, c.shared.forwards a = [] ∨ ∃ k client packet timer data,
      c.shared.forwards a =
        ((remoteAddr4.map SockAddr.v4 ++ remoteAddr6.map SockAddr.v6).take k).map (·, data) ∧
      .query a client packet ∈ c.shared.log ∧ .put a timer ∈ c.shared.log ∧
      (packet.withId timer.index).Serializes data) ∧
    ∀ w t data, c.procs w = .forward t data [] →
      c.shared.forwards t.addr =
        (remoteAddr4.map SockAddr.v4 ++ remoteAddr6.map SockAddr.v6).map (·, data) := by
  obtain ⟨hglobal, hlocal⟩ := forwarding h
  refine ⟨fun a => (hglobal a).imp_right ?_, fun w t data hw => ?_⟩
  · rintro ⟨sent, rest, client, packet, timer, data, htargets, hsent, hquery, hput, hdata⟩
    have hfirst : sent =
        (remoteAddr4.map SockAddr.v4 ++ remoteAddr6.map SockAddr.v6).take sent.length :=
      List.prefix_iff_eq_take.1 ⟨rest, htargets⟩
    exact ⟨sent.length, client, packet, timer, data,
      hsent.trans (congrArg (List.map (·, data)) hfirst), hquery, hput, hdata⟩
  · have hl := hlocal w
    rw [hw] at hl
    obtain ⟨sent, timer, htargets, hsent, -⟩ := hl
    have hall : sent = remoteAddr4.map SockAddr.v4 ++ remoteAddr6.map SockAddr.v6 :=
      (List.append_nil sent).symm.trans htargets
    exact hsent.trans (congrArg (List.map (·, data)) hall)

end Run

/-- A query that has been forwarded to the only nameserver. -/
theorem forwarded_once_root :
    ∃ c : Config Unit (Shared oneServer) (Worker oneServer), ∃ t data,
      c.procs () = .forward t data [] ∧
        c.shared.forwards t.addr = [(SockAddr.v4 nameserver, data)] := by
  obtain ⟨s, hencode, -⟩ := Worker.serverRecv_encode_solo (P := oneServer) (s := .initial oneServer)
    stub (rootDatagram 7) (fun _ _ => 0) (rootDatagram_ne_nil 7)
    (ofBytes_rootDatagram 7 (.inr rfl)) (rootQuery_questions _) TaskPool.new_indexQueue_eq_cons rfl
  have h₁ : Solo (Worker.Act (P := oneServer)) _ (.forward _ _ [SockAddr.v4 nameserver], _) :=
    hencode.step (.move le_rfl (.encode (rootQuery_serializes 0) rfl))
  have h₂ := Reaches.solo (c := initial oneServer Unit) (w := ()) .refl rfl (h₁.step .forward)
  obtain ⟨c, hc, t, data, hw⟩ : ∃ c, Reaches Worker.Act Free (initial oneServer Unit) c ∧
      ∃ t data, c.procs () = .forward t data [] := by
    exact ⟨_, h₂, Worker.stored (.initial oneServer) stub (rootQuery (UInt8.toUInt16 7)) 0,
      (rootQuery 0).header.serialize ++ [0, 0, 1, 0, 1], by simp⟩
  exact ⟨c, t, data, hw, (forwarded_once hc).2 () t data hw⟩

end DnsForwarder
