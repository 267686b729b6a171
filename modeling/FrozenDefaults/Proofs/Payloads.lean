import FrozenDefaults.Proofs.Members

/-!
# Payloads read back from JSON

A descriptor is read from every tree that writes it: the members of each object stand in
any order, the kind among them, and others may stand there too.
-/

namespace FrozenDefaults

open Json (ofNat ofText Shows datum?)

/-- The numbers of a span fit what holds them. -/
structure Span.InRange (s : Span) : Prop where
  segment : s.segment < UInt32.size
  start : s.start < UInt64.size
  length : s.length < UInt64.size

def Descriptor.InRange : Descriptor → Prop
  | .struct v => v.data.InRange ∧ v.pointers.InRange
  | .list v => v.elements.InRange
  | .pointer s => s.InRange

section Forms

/-- An object with all members that are known, in any order. -/
def Json.ShowsAll (members : List (String × Json)) (j : Json) : Prop :=
  Shows (members.map Prod.fst) members j

def Span.WrittenAs (s : Span) (j : Json) : Prop := Json.ShowsAll (Manifest.spanMembers s) j

def ElementLayout.WrittenAs (l : ElementLayout) (j : Json) : Prop :=
  Json.ShowsAll (Manifest.layoutMembers l) j

/-- The trees that write a descriptor. -/
inductive Descriptor.WrittenAs : Descriptor → Json → Prop
  | struct {v : StructView} {data pointers j : Json} (hdata : v.data.WrittenAs data)
      (hpointers : v.pointers.WrittenAs pointers)
      (h : Json.ShowsAll [("kind", ofText "struct"), ("data", data), ("pointers", pointers)] j) :
      WrittenAs (.struct v) j
  | list {v : ListView} {storage layout j : Json} (hstorage : v.elements.WrittenAs storage)
      (hlayout : v.layout.WrittenAs layout)
      (h : Json.ShowsAll [("kind", ofText "list"), ("storage", storage), ("storage_type", layout),
        ("num_elements", ofNat v.count.toNat)] j) :
      WrittenAs (.list v) j
  | pointer {s : Span} {j : Json}
      (h : Json.ShowsAll (("kind", ofText "pointer") :: Manifest.spanMembers s) j) :
      WrittenAs (.pointer s) j

end Forms

namespace Json

theorem datum?_ofNat {n : Nat} (h : n < UInt64.size) (depth : Nat) :
    datum? depth (ofNat n) = some (.natural n) := by
  have hfits : (Number.ofNat n).natural?.filter (· < UInt64.size) = some n :=
    Option.filter_some.trans (if_pos (decide_eq_true h))
  rw [ofNat, datum?, numberDatum?, hfits]

theorem datum?_ofText (s : String) (depth : Nat) : datum? depth (ofText s) = some (.text s) := by
  rw [ofText, datum?, Option.map_some]

variable {depth : Nat} {members : List (String × Json)} {values : List Datum} {j : Json}

/-- The values of the members as plain data. -/
def Give (depth : Nat) (members : List (String × Json)) (values : List Datum) : Prop :=
  List.Forall₂ (fun e x => datum? depth e.2 = some x) members values

theorem Give.once {ds : List (String × Datum)} (hv : Give depth members values)
    (h : ∀ e ∈ members, ∀ x, datum? depth e.2 = some x → Once ds e.1 x) :
    List.Forall₂ (Once ds) (members.map Prod.fst) values := by
  induction hv with
  | nil => exact .nil
  | cons hx _ ih =>
    exact .cons (h _ List.mem_cons_self _ hx) (ih fun e he => h e (List.mem_cons_of_mem _ he))

theorem Give.exists_datum? (hv : Give depth members values) :
    ∀ e ∈ members, ∃ x, datum? depth e.2 = some x := by
  intro e he
  induction hv with
  | nil => cases he
  | cons hx _ ih =>
    rcases List.mem_cons.1 he with rfl | he
    · exact ⟨_, hx⟩
    · exact ih he

theorem ShowsAll.exists_fields (h : ShowsAll members j) (hd : (members.map Prod.fst).Nodup)
    (hv : Give depth members values) : ∃ x, datum? (depth + 1) j = some x ∧
      x.fields? (members.map Prod.fst) = some values := by
  obtain ⟨ds, hdatum, honce⟩ :=
    Shows.exists_datum? h hd (fun _ he => List.mem_map_of_mem he) hv.exists_datum?
  exact ⟨_, hdatum, Datum.fields?_ofMembers hd (hv.once honce)⟩

/-- The kind is found wherever it stands, and the fields among the rest. -/
theorem ShowsAll.exists_kinded {kind : String}
    (h : ShowsAll (("kind", ofText kind) :: members) j)
    (hd : ("kind" :: members.map Prod.fst).Nodup) (hv : Give depth members values) :
    ∃ x rest, datum? (depth + 1) j = some x ∧ x.kinded? = some (.text kind, .ofMembers rest) ∧
      (Datum.ofMembers rest).fields? (members.map Prod.fst) = some values := by
  have hkind : datum? depth (ofText kind) = some (.text kind) := datum?_ofText kind depth
  have hall : Give depth (("kind", ofText kind) :: members) (.text kind :: values) :=
    .cons hkind hv
  obtain ⟨ds, hdatum, honce⟩ :=
    Shows.exists_datum? h hd (fun _ he => List.mem_map_of_mem he) hall.exists_datum?
  obtain ⟨hne, hd⟩ := List.nodup_cons.1 hd
  have hrest : ∀ e ∈ members, ∀ x, datum? depth e.2 = some x →
      Once (ds.filter (·.1 != "kind")) e.1 x := by
    intro e he x hx
    refine (honce e (List.mem_cons_of_mem _ he) x hx).filter fun hk => hne ?_
    exact hk ▸ List.mem_map_of_mem he
  exact ⟨_, _, hdatum, Datum.kinded?_ofMembers (honce _ List.mem_cons_self _ hkind),
    Datum.fields?_ofMembers hd (hv.once hrest)⟩

end Json

section Read

variable {depth : Nat} {j : Json} {x : Datum}

theorem Datum.natural?_natural {n bound : Nat} (h : n < bound) :
    (Datum.natural n).natural? bound = some n := if_pos h

theorem Span.InRange.give {s : Span} (h : s.InRange) (depth : Nat) :
    Json.Give depth (Manifest.spanMembers s)
      [.natural s.segment, .natural s.start, .natural s.length] :=
  .cons (Json.datum?_ofNat (Nat.lt_trans h.segment (by decide)) depth)
    (.cons (Json.datum?_ofNat h.start depth) (.cons (Json.datum?_ofNat h.length depth) .nil))

theorem Span.InRange.span? {s : Span} (h : s.InRange)
    (hx : x.fields? ["segment_id", "start", "len"] =
      some [.natural s.segment, .natural s.start, .natural s.length]) : x.span? = some s := by
  rw [Datum.span?, hx]
  simp only [Option.bind_eq_bind, Option.bind_some, Datum.size?, Datum.natural?_natural h.segment,
    Datum.natural?_natural h.start, Datum.natural?_natural h.length]
  rfl

theorem Span.WrittenAs.read {s : Span} (hj : s.WrittenAs j) (h : s.InRange) (depth : Nat) :
    ∃ x, datum? (depth + 1) j = some x ∧ x.span? = some s := by
  have hnames : ["segment_id", "start", "len"].Nodup := by decide
  obtain ⟨x, hdatum, hx⟩ := Json.ShowsAll.exists_fields hj hnames (h.give depth)
  exact ⟨x, hdatum, h.span? hx⟩

theorem Datum.wordCount?_natural (n : UInt16) : (natural n.toNat).wordCount? = some n := by
  rw [wordCount?, natural?_natural n.toNat_lt, Option.map_some, UInt16.ofNat_toNat]

theorem ElementLayout.WrittenAs.read {l : ElementLayout} (hj : l.WrittenAs j) (depth : Nat) :
    ∃ x, datum? (depth + 1) j = some x ∧ x.layout? = some l := by
  cases l with
  | composite d p =>
    have hnames : ["kind", "data_words", "pointer_words"].Nodup := by decide
    have hd := Nat.lt_trans d.toNat_lt (by decide : UInt16.size < UInt64.size)
    have hp := Nat.lt_trans p.toNat_lt (by decide : UInt16.size < UInt64.size)
    obtain ⟨x, rest, hdatum, hkinded, hfields⟩ := Json.ShowsAll.exists_kinded hj hnames
      (.cons (Json.datum?_ofNat hd depth) (.cons (Json.datum?_ofNat hp depth) .nil))
    refine ⟨x, hdatum, ?_⟩
    have hfields : (Datum.ofMembers rest).fields? ["data_words", "pointer_words"] =
        some [.natural d.toNat, .natural p.toNat] := hfields
    have hcomposite : (Datum.ofMembers rest).composite? = some (.composite d p) := by
      rw [Datum.composite?, hfields]
      simp only [Option.bind_eq_bind, Option.bind_some, Datum.wordCount?_natural]
      rfl
    rw [Datum.layout?, hkinded]
    exact hcomposite
  | _ =>
    have hnone : Json.Give depth [] [] := .nil
    obtain ⟨x, rest, hdatum, hkinded, _⟩ := Json.ShowsAll.exists_kinded hj (by decide) hnone
    refine ⟨x, hdatum, ?_⟩
    rw [Datum.layout?, hkinded]
    rfl

theorem Datum.structView?_of_fields {x xd xp : Datum} {v : StructView}
    (h : x.fields? ["data", "pointers"] = some [xd, xp]) (hd : xd.span? = some v.data)
    (hp : xp.span? = some v.pointers) : x.structView? = some v := by
  rw [Datum.structView?, h]
  simp only [Option.bind_eq_bind, Option.bind_some, hd, hp]
  rfl

theorem Datum.listView?_of_fields {x xs xl : Datum} {v : ListView}
    (h : x.fields? ["storage", "storage_type", "num_elements"] =
      some [xs, xl, .natural v.count.toNat])
    (hs : xs.span? = some v.elements) (hl : xl.layout? = some v.layout) :
    x.listView? = some v := by
  have hcount : v.count.toNat < UInt32.size := v.count.toNat_lt
  rw [Datum.listView?, h]
  simp only [Option.bind_eq_bind, Option.bind_some, hs, hl, Datum.natural?_natural hcount,
    UInt32.ofNat_toNat]
  rfl

theorem Descriptor.WrittenAs.read {d : Descriptor} (hj : d.WrittenAs j) (h : d.InRange)
    (depth : Nat) : ∃ x, datum? (depth + 2) j = some x ∧ x.descriptor? = some d := by
  cases hj with
  | @struct v data pointers _ hdata hpointers hj =>
    have hnames : ["kind", "data", "pointers"].Nodup := by decide
    obtain ⟨xd, hd, hxd⟩ := hdata.read h.1 depth
    obtain ⟨xp, hp, hxp⟩ := hpointers.read h.2 depth
    obtain ⟨x, rest, hdatum, hkinded, hfields⟩ :=
      Json.ShowsAll.exists_kinded hj hnames (.cons hd (.cons hp .nil))
    refine ⟨x, hdatum, ?_⟩
    rw [Datum.descriptor?, hkinded]
    exact congrArg (Option.map Descriptor.struct) (Datum.structView?_of_fields hfields hxd hxp)
  | @list v storage layout _ hstorage hlayout hj =>
    have hnames : ["kind", "storage", "storage_type", "num_elements"].Nodup := by decide
    have hcount : v.count.toNat < UInt32.size := v.count.toNat_lt
    obtain ⟨xs, hs, hxs⟩ := hstorage.read h depth
    obtain ⟨xl, hl, hxl⟩ := hlayout.read depth
    have hn := Json.datum?_ofNat (Nat.lt_trans hcount (by decide)) (depth + 1)
    obtain ⟨x, rest, hdatum, hkinded, hfields⟩ :=
      Json.ShowsAll.exists_kinded hj hnames (.cons hs (.cons hl (.cons hn .nil)))
    refine ⟨x, hdatum, ?_⟩
    rw [Datum.descriptor?, hkinded]
    exact congrArg (Option.map Descriptor.list) (Datum.listView?_of_fields hfields hxs hxl)
  | @pointer s _ hj =>
    have hnames : ["kind", "segment_id", "start", "len"].Nodup := by decide
    obtain ⟨x, rest, hdatum, hkinded, hfields⟩ :=
      Json.ShowsAll.exists_kinded hj hnames (Span.InRange.give h (depth + 1))
    refine ⟨x, hdatum, ?_⟩
    rw [Datum.descriptor?, hkinded]
    exact congrArg (Option.map Descriptor.pointer) (Span.InRange.span? h hfields)

end Read

section Proper

variable {j : Json}

theorem Json.proper_ofNat (n : Nat) : (ofNat n).Proper := .number fun _ => rfl

theorem Json.proper_ofText (s : String) : (ofText s).Proper := .string _

theorem Span.proper_members (s : Span) : ∀ e ∈ Manifest.spanMembers s, e.2.Proper := by
  simp [Manifest.spanMembers, Json.proper_ofNat]

theorem Span.WrittenAs.proper {s : Span} (h : s.WrittenAs j) : j.Proper :=
  Json.Shows.proper h s.proper_members

theorem ElementLayout.WrittenAs.proper {l : ElementLayout} (h : l.WrittenAs j) : j.Proper := by
  refine Json.Shows.proper h ?_
  cases l <;> simp [Manifest.layoutMembers, Json.proper_ofNat, Json.proper_ofText]

theorem Descriptor.WrittenAs.proper {d : Descriptor} (h : d.WrittenAs j) : j.Proper := by
  cases h with
  | struct hdata hpointers hj =>
    exact Json.Shows.proper hj (by simp [Json.proper_ofText, hdata.proper, hpointers.proper])
  | list hstorage hlayout hj =>
    exact Json.Shows.proper hj (by
      simp [Json.proper_ofText, Json.proper_ofNat, hstorage.proper, hlayout.proper])
  | @pointer s _ hj =>
    exact Json.Shows.proper hj (List.forall_mem_cons.2 ⟨Json.proper_ofText _, s.proper_members⟩)

end Proper

end FrozenDefaults
