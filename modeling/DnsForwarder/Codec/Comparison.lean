import DnsForwarder.Codec.Wire

/-!
# When two questions compare equal

`DnsQuestion::operator==` compares the dotted strings of the names, and a dotted string does not
say where the dots come from: the one label `a.b` and the two labels `a` and `b` give the same
string. Two questions on the wire compare equal if and only if dotted string, type and class agree
(`Question.compare_iff`), and for names without dots of their own that means the same bytes.
-/

namespace DnsForwarder.Wire

/-! ## Names without dots -/

/-- No label contains a dot, and neither does the pointer. -/
def Name.DotFree (n : Name) : Prop := (∀ l ∈ n.labels, dot ∉ l.bytes) ∧ dot ∉ n.ending.kept

theorem Name.dotFree_cons {l : Label} {labels : List Label} {e : Ending} :
    Name.DotFree ⟨l :: labels, e⟩ ↔ dot ∉ l.bytes ∧ Name.DotFree ⟨labels, e⟩ := by
  rw [DotFree, DotFree, List.forall_mem_cons, and_assoc]

theorem Label.ext_bytes {l l' : Label} (h : l.bytes = l'.bytes) : l = l' := by
  cases l
  cases l'
  cases h
  rfl

theorem Ending.kept_injective : Function.Injective Ending.kept := by
  intro e e' h
  cases e with
  | root =>
    cases e' with
    | root => rfl
    | pointer => cases h
  | pointer =>
    cases e' with
    | root => cases h
    | pointer =>
      cases h
      rfl

/-- Two strings that are cut at their first dot. -/
theorem eq_of_cut {u u' v v' : Bytes} (hu : dot ∉ u) (hu' : dot ∉ u')
    (h : u ++ dot :: v = u' ++ dot :: v') : u = u' ∧ v = v' := by
  induction u generalizing u' with
  | nil =>
    cases u' with
    | nil => exact ⟨rfl, (List.cons.inj h).2⟩
    | cons b' u' => exact absurd ((List.cons.inj h).1 ▸ List.mem_cons_self) hu'
  | cons b u ih =>
    cases u' with
    | nil => exact absurd ((List.cons.inj h).1 ▸ List.mem_cons_self) hu
    | cons b' u' =>
      obtain ⟨rfl, hrest⟩ := List.cons.inj h
      obtain ⟨rfl, rfl⟩ := ih (fun hd => hu (List.mem_cons_of_mem _ hd))
        (fun hd => hu' (List.mem_cons_of_mem _ hd)) hrest
      exact ⟨rfl, rfl⟩

/-- A name with a label has a dot in its string. -/
theorem Name.dotted_cons_ne {l : Label} {labels : List Label} {e e' : Ending}
    (he : dot ∉ e'.kept) : Name.dotted ⟨l :: labels, e⟩ ≠ e'.kept := by
  intro h
  rw [dotted_cons] at h
  exact he (h ▸ List.mem_append_right _ List.mem_cons_self)

/-- The dots of a dotted string are those that were put in, so that its labels can be told. -/
theorem Name.dotted_injective {n m : Name} (hn : n.DotFree) (hm : m.DotFree)
    (h : n.dotted = m.dotted) : n = m := by
  obtain ⟨labels, e⟩ := n
  obtain ⟨labels', e'⟩ := m
  induction labels generalizing labels' with
  | nil =>
    have hkept : e.kept = Name.dotted ⟨labels', e'⟩ := h
    cases labels' with
    | nil =>
      obtain rfl : e = e' := Ending.kept_injective hkept
      rfl
    | cons l' labels' => exact absurd hkept.symm (dotted_cons_ne hn.2)
  | cons l labels ih =>
    obtain ⟨hl, hlabels⟩ := dotFree_cons.1 hn
    cases labels' with
    | nil => exact absurd h (dotted_cons_ne hm.2)
    | cons l' labels' =>
      obtain ⟨hl', hlabels'⟩ := dotFree_cons.1 hm
      rw [dotted_cons, dotted_cons] at h
      obtain ⟨hbytes, hrest⟩ := eq_of_cut hl hl' h
      obtain rfl : l = l' := Label.ext_bytes hbytes
      obtain ⟨rfl, rfl⟩ := Name.mk.inj (ih hlabels labels' hlabels' hrest)
      rfl

/-! ## Questions -/

def Question.encode (q : Question) : Bytes := q.qname.encode ++ q.tail

/-- What the decoder makes of a question on the wire. -/
theorem Question.parse_fields (q : Question) (rest : Bytes) (junk : Junk) :
    ∃ a is, DnsQuestion.parse ⟨q.encode ++ rest, junk⟩ = .ok (a, is) ∧
      a.qname.name = q.qname.dotted ∧ a.qtype = q.qtype ∧ a.qclass = q.qclass := by
  obtain ⟨length, h⟩ := q.qname.parse_encode (q.tail ++ rest) junk
  refine ⟨⟨⟨q.qname.dotted, length⟩, q.qtype, q.qclass⟩, ⟨rest, fun k => junk (k + 3)⟩, ?_,
    rfl, rfl, rfl⟩
  rw [DnsQuestion.parse, encode, List.append_assoc, h]
  simp only [Question.tail, List.append_assoc, bind, Except.bind, parseUInt16_serialize]
  rfl

theorem eq_true_iff {a b : DnsQuestion} : a.eq b = true ↔
    a.qname.name = b.qname.name ∧ a.qtype = b.qtype ∧ a.qclass = b.qclass := by
  simp only [DnsQuestion.eq, Bool.and_eq_true, beq_iff_eq, and_assoc]

/-- The bytes of a question determine what is read from them. -/
theorem Question.fields_of_encode {q q' : Question} (h : q.encode = q'.encode) :
    q.qname.dotted = q'.qname.dotted ∧ q.qtype = q'.qtype ∧ q.qclass = q'.qclass := by
  obtain ⟨a, is, ha, hname, htype, hclass⟩ := q.parse_fields [] fun _ _ => 0
  obtain ⟨a', is', ha', hname', htype', hclass'⟩ := q'.parse_fields [] fun _ _ => 0
  rw [h, ha'] at ha
  obtain ⟨rfl, -⟩ := Prod.mk.inj (Except.ok.inj ha)
  exact ⟨hname.symm.trans hname', htype.symm.trans htype', hclass.symm.trans hclass'⟩

/-- **Questions are compared by dotted string, type and class.** What is read from two well-formed
questions compares equal if and only if these agree. Where neither name has a dot of its own, that
is if and only if the two encodings are the same bytes. -/
theorem Question.compare_iff (q q' : Question) (rest rest' : Bytes) (junk junk' : Junk) :
    ∃ a a' is is', DnsQuestion.parse ⟨q.encode ++ rest, junk⟩ = .ok (a, is) ∧
      DnsQuestion.parse ⟨q'.encode ++ rest', junk'⟩ = .ok (a', is') ∧
      (a.eq a' = true ↔
        q.qname.dotted = q'.qname.dotted ∧ q.qtype = q'.qtype ∧ q.qclass = q'.qclass) ∧
      (q.encode = q'.encode → a.eq a' = true) ∧
      (q.qname.DotFree → q'.qname.DotFree → (a.eq a' = true ↔ q.encode = q'.encode)) := by
  obtain ⟨a, is, ha, hname, htype, hclass⟩ := q.parse_fields rest junk
  obtain ⟨a', is', ha', hname', htype', hclass'⟩ := q'.parse_fields rest' junk'
  have hfields : a.eq a' = true ↔
      q.qname.dotted = q'.qname.dotted ∧ q.qtype = q'.qtype ∧ q.qclass = q'.qclass := by
    rw [eq_true_iff, hname, hname', htype, htype', hclass, hclass']
  refine ⟨a, a', is, is', ha, ha', hfields, fun h => hfields.2 (fields_of_encode h), ?_⟩
  intro hq hq'
  refine hfields.trans ⟨?_, fields_of_encode⟩
  rintro ⟨hdotted, htype, hclass⟩
  have hqname := Name.dotted_injective hq hq' hdotted
  rw [encode, encode, tail, tail, hqname, htype, hclass]

/-- The one label `a.b`. -/
def oneLabel : Question where
  qname := ⟨[⟨[97, 46, 98], by decide, by decide⟩], .root⟩
  qtype := 1
  qclass := 1

/-- The two labels `a` and `b`. -/
def twoLabels : Question where
  qname := ⟨[⟨[97], by decide, by decide⟩, ⟨[98], by decide, by decide⟩], .root⟩
  qtype := 1
  qclass := 1

/-- Both are read as `a.b.` and compare equal. -/
theorem labels_collide :
    ¬ ∀ (q q' : Question) (junk : Junk), ∀ a a' is is',
      DnsQuestion.parse ⟨q.encode, junk⟩ = .ok (a, is) →
      DnsQuestion.parse ⟨q'.encode, junk⟩ = .ok (a', is') →
      (a.eq a' = true ↔ q.encode = q'.encode) := by
  intro h
  obtain ⟨a, is, ha, hname, htype, hclass⟩ := oneLabel.parse_fields [] fun _ _ => 0
  obtain ⟨a', is', ha', hname', htype', hclass'⟩ := twoLabels.parse_fields [] fun _ _ => 0
  rw [List.append_nil] at ha ha'
  have heq : a.eq a' = true := eq_true_iff.2
    ⟨hname.trans hname'.symm, htype.trans htype'.symm, hclass.trans hclass'.symm⟩
  have hbytes := (h oneLabel twoLabels _ a a' is is' ha ha').1 heq
  exact absurd hbytes (by decide)

end DnsForwarder.Wire
