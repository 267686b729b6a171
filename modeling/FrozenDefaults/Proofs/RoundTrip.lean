import FrozenDefaults.Proofs.Payloads

/-!
# Manifests read back from JSON

A manifest is read from every text that spells a tree which writes it. In such a tree
the members of an object stand in any order, settings that are open may be null, empty
parts may be left out, and idle members may be added, but not to the options.
-/

namespace FrozenDefaults

open Json (ofNat ofText ofMembers Shows)

structure Preferences.InRange (p : Preferences) : Prop where
  wrapWidth : ∀ n ∈ p.wrapWidth, n < UInt64.size
  initialCapacity : ∀ n ∈ p.initialCapacity, n < UInt64.size
  nestingLimit : ∀ n ∈ p.nestingLimit, n < UInt64.size

/-- The numbers of a manifest fit the fields that hold them. -/
structure Manifest.InRange (m : Manifest) : Prop where
  options : m.options.InRange
  entries : ∀ e ∈ m.entries, e.node < UInt64.size ∧ e.payload.InRange

section Forms

/-- The trees that write options. Settings that are open may be written as null. -/
inductive Preferences.WrittenAs (p : Preferences) : Json → Prop
  | intro {all : List (String × Json)} {nulls : List String} (hd : nulls.Nodup)
      (hopen : ∀ name ∈ nulls, name ∈ Dialect.optionFields ∧
        ∀ e ∈ Manifest.optionMembers p, e.1 ≠ name)
      (h : all.Perm (Manifest.optionMembers p ++ nulls.map fun name => (name, .null))) :
      WrittenAs p (ofMembers all)

inductive Manifest.Entry.WrittenAs (e : Entry) : Json → Prop
  | intro {payload j : Json} (hpayload : e.payload.WrittenAs payload)
      (h : Json.ShowsAll [("node_id", ofNat e.node), ("field", ofText e.field),
        ("payload", payload)] j) : WrittenAs e j

/-- The trees that write a manifest. A part of it that is empty may be left out. -/
inductive Manifest.WrittenAs (m : Manifest) : Json → Prop
  | intro {options j : Json} {entries : List Json} {members : List (String × Json)}
      (hoptions : m.options.WrittenAs options)
      (hentries : List.Forall₂ Entry.WrittenAs m.entries entries)
      (hmembers : members.Sublist [("options", options),
        ("segments", .array (m.segments.map ofText)), ("defaults", .array entries)])
      (hleft : ("options", options) ∉ members → m.options = .none)
      (hleft' : ("segments", .array (m.segments.map ofText)) ∉ members → m.segments = [])
      (hleft'' : ("defaults", .array entries) ∉ members → m.entries = [])
      (h : Shows Dialect.manifestFields members j) : WrittenAs m j

end Forms

namespace Json

variable {α : Type} {read : Json → Option α} {names : List String} {name : String}
  {all : List (String × Json)} {v : Json} {a : α}

theorem required_of_once (h : Once all name v) (hr : read v = some a) :
    dialect.required read names name (.keyed all) = some a := by
  show ((Record.find? names name (.keyed all)).bind id).bind read = some a
  rw [Record.find?_of_once h]
  exact hr

theorem given_of_once {absent : α} (h : Once all name v) (hr : read v = some a) :
    dialect.given absent read names name (.keyed all) = some a := by
  show (Record.find? names name (.keyed all)).bind _ = some a
  rw [Record.find?_of_once h]
  exact hr

theorem given_of_missing {absent : α} (h : Missing all name) :
    dialect.given absent read names name (.keyed all) = some absent := by
  show (Record.find? names name (.keyed all)).bind _ = some absent
  rw [Record.find?_of_missing h]
  rfl

/-- A member that cannot be read, or stands twice, makes reading fail. -/
theorem given_eq_none {absent : α} (h : (name, v) ∈ all) (hr : read v = none) :
    dialect.given absent read names name (.keyed all) = none := by
  have hmem : (name, v) ∈ all.filter (·.1 == name) := List.mem_filter.2 ⟨h, beq_self_eq_true name⟩
  show (Record.find? names name (.keyed all)).bind _ = none
  rw [Record.find?]
  split
  · rename_i hfilter
    rw [hfilter] at hmem
    cases hmem
  · rename_i hfilter
    rw [hfilter] at hmem
    obtain ⟨_, rfl⟩ := Prod.mk.inj (List.mem_singleton.1 hmem)
    exact hr
  · rfl

theorem size_ofNat {n : Nat} (h : n < UInt64.size) : dialect.size (ofNat n) = some n := by
  show (some n).bind (fun k => (dialect.check (k < UInt64.size)).bind fun _ => some k) = some n
  rw [Option.bind_some, Dialect.check, decide_eq_true h]
  rfl

theorem setting_of_written {write : α → Json} {o : Option α}
    (hset : ∀ a, o = some a → Once all name (write a))
    (hopen : o = none → Missing all name ∨ Once all name .null)
    (hw : ∀ a, o = some a → (write a).optional = some (write a) ∧ read (write a) = some a) :
    dialect.setting read names name (.keyed all) = some o := by
  show (Record.find? names name (.keyed all)).bind _ = some o
  cases o with
  | none =>
    rcases hopen rfl with h | h
    · rw [Record.find?_of_missing h]
      rfl
    · rw [Record.find?_of_once h]
      rfl
  | some a =>
    obtain ⟨hoptional, hread⟩ := hw a rfl
    have hvalue : dialect.optional (write a) = some (some (write a)) := congrArg some hoptional
    rw [Record.find?_of_once (hset a rfl), Option.bind_some]
    simp only [hvalue, hread, Option.bind_eq_bind, Option.bind_some]
    rfl

end Json

section Options

variable {p : Preferences} {e : String × Json}

theorem mem_settingMember {α : Type} {name : String} {write : α → Json} {o : Option α} :
    e ∈ Manifest.settingMember name write o ↔ ∃ a, o = some a ∧ e = (name, write a) := by
  cases o <;> simp [Manifest.settingMember]

theorem optionMembers_sublist (p : Preferences) :
    ((Manifest.optionMembers p).map Prod.fst).Sublist Dialect.optionFields := by
  have hkey {α : Type} (name : String) (write : α → Json) (o : Option α) :
      ((Manifest.settingMember name write o).map Prod.fst).Sublist [name] := by
    cases o <;> simp [Manifest.settingMember]
  rw [Manifest.optionMembers, List.map_append, List.map_append, List.map_append]
  exact (((hkey _ _ _).append (hkey _ _ _)).append (hkey _ _ _)).append (hkey _ _ _)

theorem Preferences.WrittenAs.lookups {j : Json} (h : p.WrittenAs j) : ∃ all, j = ofMembers all ∧
    (∀ e ∈ all, e.1 ∈ Dialect.optionFields) ∧
    (∀ e ∈ Manifest.optionMembers p, Once all e.1 e.2) ∧
    ∀ name, (∀ e ∈ Manifest.optionMembers p, e.1 ≠ name) →
      Missing all name ∨ Once all name .null := by
  obtain @⟨all, nulls, hd, hopen, hp⟩ := h
  have hfields : Dialect.optionFields.Nodup := by decide
  have hnulls : ∀ e ∈ nulls.map fun name => (name, Json.null), e.1 ∈ nulls := by
    intro e he
    obtain ⟨name, hn, rfl⟩ := List.mem_map.1 he
    exact hn
  refine ⟨all, rfl, fun e he => ?_, fun e he => ?_, fun name hn => ?_⟩
  · rcases List.mem_append.1 (hp.subset he) with he | he
    · exact (optionMembers_sublist p).subset (List.mem_map_of_mem he)
    · exact (hopen _ (hnulls e he)).1
  · exact once_of_perm hp ((optionMembers_sublist p).nodup hfields) he fun e' he' hk =>
      (hopen _ (hnulls e' he')).2 e he hk.symm
  · by_cases hm : name ∈ nulls
    · have hkeys : (nulls.map fun name => (name, Json.null)).map Prod.fst = nulls := by
        rw [List.map_map]
        exact List.map_id nulls
      exact .inr (once_of_perm (hp.trans List.perm_append_comm) (hkeys.symm ▸ hd)
        (List.mem_map.2 ⟨name, hm, rfl⟩) hn)
    · exact .inl (missing_of_perm hp hn fun e he hk => hm (hk ▸ hnulls e he))

theorem setting_of_optionMembers {α : Type} {all : List (String × Json)} {read : Json → Option α}
    {write : α → Json} {o : Option α} {name : String}
    (hset : ∀ e ∈ Manifest.optionMembers p, Once all e.1 e.2)
    (hopen : ∀ name, (∀ e ∈ Manifest.optionMembers p, e.1 ≠ name) →
      Missing all name ∨ Once all name .null)
    (hat : ∀ j, (name, j) ∈ Manifest.optionMembers p ↔
      ∃ a, o = some a ∧ (name, j) = (name, write a))
    (hw : ∀ a, o = some a → (write a).optional = some (write a) ∧ read (write a) = some a) :
    Json.dialect.setting read Dialect.optionFields name (.keyed all) = some o := by
  refine Json.setting_of_written (fun a ha => hset _ ((hat _).2 ⟨a, ha, rfl⟩))
    (fun ho => hopen name ?_) hw
  rintro ⟨_, j⟩ he rfl
  obtain ⟨a, ha, _⟩ := (hat j).1 he
  cases ho.symm.trans ha

theorem Preferences.WrittenAs.read {j : Json} (h : p.WrittenAs j) (hr : p.InRange) :
    Json.dialect.preferences j = some p := by
  obtain ⟨all, rfl, hclosed, hset, hopen⟩ := h.lookups
  have hrecord : Json.dialect.record (ofMembers all) = some (.keyed all) :=
    Json.record?_ofMembers all
  have hfields : (Record.keyed all).isClosed Dialect.optionFields = true :=
    List.all_eq_true.2 fun e he => List.contains_iff_mem.2 (hclosed e he)
  have hnumber : ∀ n < UInt64.size, (ofNat n).optional = some (ofNat n) ∧
      Json.dialect.size (ofNat n) = some n := fun n hn => ⟨rfl, Json.size_ofNat hn⟩
  have hwrap : Json.dialect.setting Json.dialect.size Dialect.optionFields "wrap_width"
      (.keyed all) = some p.wrapWidth :=
    setting_of_optionMembers hset hopen
      (fun j => by simp [Manifest.optionMembers, mem_settingMember])
      fun n hn => hnumber n (hr.wrapWidth n hn)
  have hpath : Json.dialect.setting Json.dialect.text Dialect.optionFields "runtime_path"
      (.keyed all) = some p.runtimePath :=
    setting_of_optionMembers hset hopen
      (fun j => by simp [Manifest.optionMembers, mem_settingMember])
      fun s _ => ⟨(rfl : (ofText s).optional = some (ofText s)), rfl⟩
  have hcapacity : Json.dialect.setting Json.dialect.size Dialect.optionFields "initial_capacity"
      (.keyed all) = some p.initialCapacity :=
    setting_of_optionMembers hset hopen
      (fun j => by simp [Manifest.optionMembers, mem_settingMember])
      fun n hn => hnumber n (hr.initialCapacity n hn)
  have hlimit : Json.dialect.setting Json.dialect.size Dialect.optionFields "nesting_limit"
      (.keyed all) = some p.nestingLimit :=
    setting_of_optionMembers hset hopen
      (fun j => by simp [Manifest.optionMembers, mem_settingMember])
      fun n hn => hnumber n (hr.nestingLimit n hn)
  simp only [Dialect.preferences, hrecord, Option.bind_eq_bind, Option.bind_some, Dialect.check,
    hfields, hwrap, hpath, hcapacity, hlimit]
  rfl

end Options

theorem Manifest.Entry.WrittenAs.read {e : Entry} {j : Json} (h : e.WrittenAs j)
    (hn : e.node < UInt64.size) (hp : e.payload.InRange) : Json.dialect.entry j = some e := by
  obtain @⟨payload, _, hpayload, h⟩ := h
  have hnames : ["node_id", "field", "payload"].Nodup := by decide
  obtain ⟨all, rfl, honce, _, _⟩ := Shows.lookups h hnames fun _ he => List.mem_map_of_mem he
  obtain ⟨x, hdatum, hx⟩ := hpayload.read hp 122
  have hdescriptor : Json.dialect.descriptor payload = some e.payload := by
    show (Json.datum? 124 payload).bind Datum.descriptor? = _
    rw [hdatum]
    exact hx
  have hrecord : Json.dialect.record (ofMembers all) = some (.keyed all) :=
    Json.record?_ofMembers all
  have honce : Once all "node_id" (ofNat e.node) ∧ Once all "field" (ofText e.field) ∧
      Once all "payload" payload := by
    simpa only [List.forall_mem_cons, List.not_mem_nil, false_imp_iff, forall_true_iff,
      and_true] using honce
  have hnode : Json.dialect.required Json.dialect.size Dialect.entryFields "node_id"
      (.keyed all) = some e.node := Json.required_of_once honce.1 (Json.size_ofNat hn)
  have hfield : Json.dialect.required Json.dialect.text Dialect.entryFields "field"
      (.keyed all) = some e.field := Json.required_of_once honce.2.1 rfl
  have hpayload : Json.dialect.required Json.dialect.descriptor Dialect.entryFields "payload"
      (.keyed all) = some e.payload := Json.required_of_once honce.2.2 hdescriptor
  simp only [Dialect.entry, hrecord, Option.bind_eq_bind, Option.bind_some, Dialect.check,
    Record.fits, hnode, hfield, hpayload]
  rfl

theorem each_text (segments : List String) :
    Json.dialect.each Json.dialect.text (.array (segments.map ofText)) = some segments :=
  Datum.mapM_eq_some_iff.2
    (List.forall₂_map_left_iff.2 (List.forall₂_same.2 fun _ _ => rfl))

theorem each_entry {entries : List Manifest.Entry} {items : List Json}
    (h : List.Forall₂ Manifest.Entry.WrittenAs entries items)
    (hr : ∀ e ∈ entries, e.node < UInt64.size ∧ e.payload.InRange) :
    Json.dialect.each Json.dialect.entry (.array items) = some entries := by
  refine Datum.mapM_eq_some_iff.2 ?_
  induction h with
  | nil => exact .nil
  | cons he _ ih =>
    obtain ⟨hn, hp⟩ := hr _ List.mem_cons_self
    exact .cons (he.read hn hp) (ih fun e he => hr e (List.mem_cons_of_mem _ he))

theorem Manifest.WrittenAs.read {m : Manifest} {j : Json} (h : m.WrittenAs j) (hm : m.InRange) :
    Json.dialect.manifest j = some m := by
  obtain @⟨options, _, entries, members, hoptions, hentries, hsub, hleft, hleft', hleft'', h⟩ := h
  have hnames : Dialect.manifestFields.Nodup := by decide
  have hkeys : (members.map Prod.fst).Sublist Dialect.manifestFields := hsub.map Prod.fst
  obtain ⟨all, rfl, honce, hmissing, _⟩ := Shows.lookups h (hkeys.nodup hnames)
    fun _ he => hkeys.subset (List.mem_map_of_mem he)
  have hrecord : Json.dialect.record (ofMembers all) = some (.keyed all) :=
    Json.record?_ofMembers all
  have hdistinct : ([("options", options), ("segments", .array (m.segments.map ofText)),
      ("defaults", .array entries)].map Prod.fst).Nodup := hnames
  -- A part is read from its member, or taken to be empty where that is left out.
  have hgiven {α : Type} {read : Json → Option α} {name : String} {absent a : α} {v : Json}
      (hmem : (name, v) ∈ [("options", options), ("segments", .array (m.segments.map ofText)),
        ("defaults", .array entries)]) (hr : read v = some a)
      (hleft : (name, v) ∉ members → a = absent) :
      Json.dialect.given absent read Dialect.manifestFields name (.keyed all) = some a := by
    by_cases hin : (name, v) ∈ members
    · exact Json.given_of_once (honce _ hin) hr
    · rw [hleft hin]
      refine Json.given_of_missing (hmissing _ ?_ fun e he hk => hin ?_)
      · exact List.mem_map_of_mem (f := Prod.fst) hmem
      · exact List.inj_on_of_nodup_map hdistinct (hsub.subset he) hmem hk ▸ he
  have hoptions := hgiven (by simp) (hoptions.read hm.options) hleft
  have hsegments := hgiven (by simp) (each_text m.segments) hleft'
  have hentries := hgiven (by simp) (each_entry hentries hm.entries) hleft''
  simp only [Dialect.manifest, hrecord, Option.bind_eq_bind, Option.bind_some, Dialect.check,
    Record.fits, hoptions, hsegments, hentries]
  rfl

section Text

variable {j : Json}

theorem Preferences.WrittenAs.proper {p : Preferences} (h : p.WrittenAs j) : j.Proper := by
  obtain @⟨all, nulls, _, _, hp⟩ := h
  refine Json.proper_ofMembers fun e he => ?_
  rcases List.mem_append.1 (hp.subset he) with he | he
  · simp only [Manifest.optionMembers, List.mem_append, mem_settingMember] at he
    rcases he with ((⟨n, _, rfl⟩ | ⟨s, _, rfl⟩) | ⟨n, _, rfl⟩) | ⟨n, _, rfl⟩
    · exact Json.proper_ofNat n
    · exact Json.proper_ofText s
    · exact Json.proper_ofNat n
    · exact Json.proper_ofNat n
  · obtain ⟨_, _, rfl⟩ := List.mem_map.1 he
    exact .null

theorem Manifest.Entry.WrittenAs.proper {e : Entry} (h : e.WrittenAs j) : j.Proper := by
  obtain ⟨hpayload, h⟩ := h
  exact Json.Shows.proper h (by simp [Json.proper_ofNat, Json.proper_ofText, hpayload.proper])

theorem Manifest.Entry.proper_of_written {entries : List Entry} {items : List Json}
    (h : List.Forall₂ WrittenAs entries items) : ∀ j ∈ items, j.Proper := by
  intro j hj
  induction h with
  | nil => cases hj
  | cons he _ ih =>
    rcases List.mem_cons.1 hj with rfl | hj
    · exact he.proper
    · exact ih hj

namespace Manifest

variable {m : Manifest}

theorem WrittenAs.proper (h : m.WrittenAs j) : j.Proper := by
  obtain @⟨options, _, entries, members, hoptions, hentries, hsub, _, _, _, h⟩ := h
  have hsegments : (Json.array (m.segments.map ofText)).Proper := by
    refine .array fun j hj => ?_
    obtain ⟨s, _, rfl⟩ := List.mem_map.1 hj
    exact Json.proper_ofText s
  have hitems : (Json.array entries).Proper := .array (Entry.proper_of_written hentries)
  have hall : ∀ e ∈ [("options", options), ("segments", .array (m.segments.map ofText)),
      ("defaults", .array entries)], e.2.Proper := by
    simp [hoptions.proper, hsegments, hitems]
  exact h.proper fun e he => hall e (hsub.subset he)

end Manifest

theorem Json.shows_ofMembers (known : List String) (members : List (String × Json)) :
    Shows known members (ofMembers members) :=
  ⟨members, [], rfl, by rw [List.append_nil], fun _ he => (by cases he)⟩

theorem Descriptor.writtenAs_ofMembers (d : Descriptor) :
    d.WrittenAs (ofMembers (Manifest.descriptorMembers d)) := by
  have hspan (s : Span) : s.WrittenAs (ofMembers (Manifest.spanMembers s)) :=
    Json.shows_ofMembers _ _
  cases d with
  | struct v => exact .struct (hspan v.data) (hspan v.pointers) (Json.shows_ofMembers _ _)
  | list v => exact .list (hspan v.elements) (Json.shows_ofMembers _ _) (Json.shows_ofMembers _ _)
  | pointer s => exact .pointer (Json.shows_ofMembers _ _)

namespace Manifest

variable {m : Manifest}

theorem writtenAs_toJson (m : Manifest) : m.WrittenAs m.toJson := by
  have hoptions : m.options.WrittenAs (ofMembers (optionMembers m.options)) :=
    .intro List.nodup_nil (by simp) (by simp)
  have hentries : List.Forall₂ Entry.WrittenAs m.entries
      (m.entries.map fun e => ofMembers (entryMembers e)) :=
    List.forall₂_map_right_iff.2 (List.forall₂_same.2 fun e _ =>
      .intro e.payload.writtenAs_ofMembers (Json.shows_ofMembers _ _))
  exact .intro hoptions hentries (List.Sublist.refl _) (by simp) (by simp) (by simp)
    (Json.shows_ofMembers _ _)

theorem record?_object (members : List (Option String × Json)) :
    Json.record? (.object members) = none ∨ ∃ all, Json.object members = ofMembers all := by
  cases h : Json.record? (.object members) with
  | none => exact .inl rfl
  | some r =>
    obtain ⟨all, hall, rfl⟩ := Option.map_eq_some_iff.1 h
    refine .inr ⟨all, congrArg Json.object ?_⟩
    have hkeys := Datum.mapM_eq_some_iff.1 hall
    clear h hall
    induction hkeys with
    | nil => rfl
    | @cons e _ _ _ he _ ih =>
      obtain ⟨key, v⟩ := e
      obtain ⟨k, rfl, he⟩ := Option.bind_eq_some_iff.1 he
      obtain rfl := Option.some.inj he
      rw [List.map_cons, ← ih]

theorem preferences_eq_none {options : List (Option String × Json)}
    (h : ∃ e ∈ options, ∀ name ∈ Dialect.optionFields, e.1 ≠ some name) :
    Json.dialect.preferences (.object options) = none := by
  rcases record?_object options with hr | ⟨all, hall⟩
  · have hrecord : Json.dialect.record (.object options) = none := hr
    simp only [Dialect.preferences, hrecord, Option.bind_eq_bind, Option.bind_none]
  · obtain rfl := Json.object.inj hall
    have hrecord : Json.dialect.record (ofMembers all) = some (.keyed all) :=
      Json.record?_ofMembers all
    obtain ⟨e, he, hne⟩ := h
    obtain ⟨e, hm, rfl⟩ := List.mem_map.1 he
    have hopen : (Record.keyed all).isClosed Dialect.optionFields = false := by
      refine Bool.eq_false_iff.2 fun hclosed => ?_
      have hmem := List.contains_iff_mem.1 (List.all_eq_true.1 hclosed e hm)
      exact hne e.1 hmem rfl
    rw [← ofMembers]
    simp only [Dialect.preferences, hrecord, Option.bind_eq_bind, Option.bind_some, Dialect.check,
      hopen]
    rfl

/-- A manifest with such options is refused, whatever else is in it. -/
theorem manifest_eq_none {members options : List (Option String × Json)}
    (hm : (some "options", .object options) ∈ members)
    (h : ∃ e ∈ options, ∀ name ∈ Dialect.optionFields, e.1 ≠ some name) :
    Json.dialect.manifest (.object members) = none := by
  rcases record?_object members with hr | ⟨all, hall⟩
  · have hrecord : Json.dialect.record (.object members) = none := hr
    simp only [Dialect.manifest, hrecord, Option.bind_eq_bind, Option.bind_none]
  · obtain rfl := Json.object.inj hall
    have hrecord : Json.dialect.record (ofMembers all) = some (.keyed all) :=
      Json.record?_ofMembers all
    obtain ⟨⟨name, v⟩, hmem, he⟩ := List.mem_map.1 hm
    obtain ⟨hname, rfl⟩ := Prod.mk.inj he
    obtain rfl := Option.some.inj hname
    have hfound : Json.dialect.given Preferences.none Json.dialect.preferences
        Dialect.manifestFields "options" (.keyed all) = none :=
      Json.given_eq_none hmem (preferences_eq_none h)
    rw [← ofMembers]
    simp only [Dialect.manifest, hrecord, Option.bind_eq_bind, Option.bind_some, Dialect.check,
      Record.fits, hfound, Option.bind_none]
    rfl

/-- Manifests go through JSON unchanged: a manifest is read back from its own text, and from every
text that spells a tree which writes it, with whatever order, whatever nulls for open settings, what
empty parts left out and what idle members added. A member that is no option is refused among the
options. -/
theorem json_round_trip (hm : m.InRange) :
    ofJson? m.toJson.render = some m ∧
    m.WrittenAs m.toJson ∧
    (∀ j, m.WrittenAs j → j.SpelledBy j.render ∧
      ∀ text, j.SpelledBy text → ofJson? text = some m) ∧
    ∀ members options, (some "options", .object options) ∈ members →
      (∃ e ∈ options, ∀ name ∈ Dialect.optionFields, e.1 ≠ some name) →
      ∀ text, (Json.object members).SpelledBy text → ofJson? text = none := by
  have hread {j : Json} (hj : m.WrittenAs j) {text : String} (ht : j.SpelledBy text) :
      ofJson? text = some m := by
    rw [ofJson?, Json.ofText?_of_spelledBy ht]
    exact hj.read hm
  have hself := writtenAs_toJson m
  refine ⟨hread hself hself.proper.spelledBy_render, hself, fun j hj =>
    ⟨hj.proper.spelledBy_render, fun text => hread hj⟩, fun members options ho hu text ht => ?_⟩
  rw [ofJson?, Json.ofText?_of_spelledBy ht]
  exact manifest_eq_none ho hu

/-- A manifest with a text that needs escapes, the largest node, and a composite list. -/
def varied : Manifest where
  options := ⟨some 40, some "r\"\\\x01\n", none, none⟩
  segments := []
  entries := [⟨UInt64.size - 1, "a_1", .list ⟨⟨0, 8, 16⟩, .composite 1 1, 1⟩⟩]

/-- The members in reverse order, behind one that is not known. -/
def noted (members : List (String × Json)) : Json :=
  ofMembers (("note", .bool true) :: members.reverse)

/-- The same manifest with all objects reversed, without its segments and with a null. The kind of
the list and of its layout come last. -/
def rearranged : Json :=
  let layout := noted (layoutMembers (.composite 1 1))
  let payload := noted [("kind", ofText "list"), ("storage", noted (spanMembers ⟨0, 8, 16⟩)),
    ("storage_type", layout), ("num_elements", ofNat 1)]
  let entry := noted [("node_id", ofNat (UInt64.size - 1)), ("field", ofText "a_1"),
    ("payload", payload)]
  noted [("options", ofMembers (("nesting_limit", .null) :: optionMembers varied.options)),
    ("defaults", .array [entry])]

theorem shows_noted {known : List String} {members : List (String × Json)}
    (h : "note" ∉ known) : Shows known members (noted members) := by
  refine ⟨_, [("note", .bool true)], rfl, ?_, ?_⟩
  · exact ((List.reverse_perm members).cons _).trans (List.perm_append_singleton _ _).symm
  · intro e he
    obtain rfl := List.mem_singleton.1 he
    exact ⟨h, .bool true⟩

theorem inRange_varied : varied.InRange := by
  refine ⟨⟨?_, ?_, ?_⟩, ?_⟩
  · rintro n ⟨⟩
    decide
  · rintro n ⟨⟩
  · rintro n ⟨⟩
  · intro e he
    obtain rfl := List.mem_singleton.1 he
    exact ⟨by decide, by decide, by decide, by decide⟩

theorem writtenAs_rearranged : varied.WrittenAs rearranged := by
  have hoptions : varied.options.WrittenAs
      (ofMembers (("nesting_limit", .null) :: optionMembers varied.options)) := by
    refine @Preferences.WrittenAs.intro _ _ ["nesting_limit"] (by decide) ?_
      (List.perm_append_singleton _ _).symm
    intro name hname
    obtain rfl := List.mem_singleton.1 hname
    exact ⟨by decide, by simp [varied, optionMembers, settingMember]⟩
  have hlist : Descriptor.WrittenAs (.list ⟨⟨0, 8, 16⟩, .composite 1 1, 1⟩) _ :=
    .list (shows_noted (by decide)) (shows_noted (by decide)) (shows_noted (by decide))
  have hentries : List.Forall₂ Entry.WrittenAs varied.entries _ :=
    .cons (.intro hlist (shows_noted (by decide))) .nil
  exact .intro hoptions hentries (.cons_cons _ (.cons _ (.cons_cons _ .slnil)))
    (fun h => absurd List.mem_cons_self h) (fun _ => rfl)
    (fun h => absurd (List.mem_cons_of_mem _ List.mem_cons_self) h) (shows_noted (by decide))

theorem json_round_trip_sample :
    ofJson? varied.toJson.render = some varied ∧ ofJson? rearranged.render = some varied ∧
      ofJson? (ofMembers [("options", ofMembers [("unknown", .null)])]).render = none := by
  obtain ⟨hself, _, hforms, hrefused⟩ := json_round_trip inRange_varied
  obtain ⟨hspelled, hread⟩ := hforms rearranged writtenAs_rearranged
  have hproper : (ofMembers [("options", ofMembers [("unknown", .null)])]).Proper :=
    Json.proper_ofMembers (by simp [Json.proper_ofMembers, Json.Proper.null])
  refine ⟨hself, hread _ hspelled, hrefused _ _ List.mem_cons_self ?_ _ hproper.spelledBy_render⟩
  exact ⟨_, List.mem_cons_self, by decide⟩

end Manifest

end Text

end FrozenDefaults
