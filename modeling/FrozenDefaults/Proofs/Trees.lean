import FrozenDefaults.Proofs.Tokens

/-!
# Trees read back

The tokens of a tree are read as the tree, and so is every text that spells them. The
tree's own text is one of these.
-/

namespace FrozenDefaults.Json

open Token (Spells Ends)

theorem induction {P : Json → Prop} (null : P null) (bool : ∀ b, P (bool b))
    (number : ∀ n, P (number n)) (string : ∀ s, P (string s))
    (array : ∀ items, (∀ j ∈ items, P j) → P (array items))
    (object : ∀ members, (∀ e ∈ members, P e.2) → P (object members)) (j : Json) : P j :=
  match j with
  | .null => null
  | .bool b => bool b
  | .number n => number n
  | .string s => string s
  | .array items => array items fun j _ =>
    induction null bool number string array object j
  | .object members => object members fun e _ =>
    induction null bool number string array object e.2
termination_by sizeOf j
decreasing_by
  · have hj := List.sizeOf_lt_of_mem ‹j ∈ items›
    simp only [Json.array.sizeOf_spec]
    omega
  · have he := List.sizeOf_lt_of_mem ‹e ∈ members›
    obtain ⟨k, v⟩ := e
    simp only [Json.object.sizeOf_spec, Prod.mk.sizeOf_spec] at he ⊢
    omega

section Reads

/-- The tokens are read as a value, whatever containers are open and whatever follows. -/
def Reads (ts : List Token) (j : Json) : Prop :=
  ∀ stack rest, run ⟨.value, stack⟩ (ts ++ rest) = run ⟨.after j, stack⟩ rest

theorem run_itemTokens {items : List Json} (h : ∀ j ∈ items, Reads j.tokens j) (hne : items ≠ [])
    (done : List Json) (stack : List Frame) (rest : List Token) :
    run ⟨.value, .items done :: stack⟩ (itemTokens items ++ rest) =
      run ⟨.after (.array (done.reverse ++ items)), stack⟩ rest := by
  induction items generalizing done with
  | nil => exact absurd rfl hne
  | cons j items ih =>
    have hj := h j List.mem_cons_self
    cases items with
    | nil =>
      rw [itemTokens, List.append_assoc, hj]
      show run ⟨.after (.array (j :: done).reverse), stack⟩ rest = _
      rw [List.reverse_cons]
    | cons i items =>
      have hitems := ih (fun j hj => h j (List.mem_cons_of_mem _ hj)) (List.cons_ne_nil _ _)
        (j :: done)
      rw [itemTokens, List.append_assoc, hj]
      · refine hitems.trans ?_
        rw [List.reverse_cons, List.append_assoc]
        rfl
      · exact List.cons_ne_nil _ _

theorem run_memberTokens {members : List (Option String × Json)}
    (h : ∀ e ∈ members, Reads e.2.tokens e.2) (hne : members ≠ [])
    (done : List (Option String × Json)) (stack : List Frame) (rest : List Token) :
    run ⟨.key, .members done :: stack⟩ (memberTokens members ++ rest) =
      run ⟨.after (.object (done.reverse ++ members)), stack⟩ rest := by
  induction members generalizing done with
  | nil => exact absurd rfl hne
  | cons e members ih =>
    obtain ⟨k, j⟩ := e
    have hj : Reads j.tokens j := h (k, j) List.mem_cons_self
    have hkey (ts : List Token) : run ⟨.key, .members done :: stack⟩
        (.string k :: .colon :: (j.tokens ++ ts)) = run ⟨.after j, .member done k :: stack⟩ ts :=
      hj (.member done k :: stack) ts
    cases members with
    | nil =>
      rw [memberTokens, List.append_assoc]
      refine (hkey _).trans ?_
      show run ⟨.after (.object ((k, j) :: done).reverse), stack⟩ rest = _
      rw [List.reverse_cons]
    | cons e members =>
      have hmembers := ih (fun e he => h e (List.mem_cons_of_mem _ he)) (List.cons_ne_nil _ _)
        ((k, j) :: done)
      rw [memberTokens, List.append_assoc]
      · refine (hkey _).trans (hmembers.trans ?_)
        rw [List.reverse_cons, List.append_assoc]
        rfl
      · exact List.cons_ne_nil _ _

theorem run_firstItem (j : Json) (items : List Json) (stack : List Frame) (rest : List Token) :
    run ⟨.firstItem, .items [] :: stack⟩ (itemTokens (j :: items) ++ rest) =
      run ⟨.value, .items [] :: stack⟩ (itemTokens (j :: items) ++ rest) := by
  have hj (ts : List Token) : run ⟨.firstItem, .items [] :: stack⟩ (j.tokens ++ ts) =
      run ⟨.value, .items [] :: stack⟩ (j.tokens ++ ts) := by
    cases j <;> rfl
  cases items with
  | nil =>
    rw [itemTokens, List.append_assoc]
    exact hj _
  | cons i items =>
    rw [itemTokens, List.append_assoc]
    · exact hj _
    · exact List.cons_ne_nil _ _

theorem reads_tokens (j : Json) : Reads j.tokens j := by
  induction j using Json.induction with
  | null => exact fun _ _ => rfl
  | bool b => exact fun _ _ => rfl
  | number n => exact fun _ _ => rfl
  | string s => exact fun _ _ => rfl
  | array items ih =>
    intro stack rest
    cases items with
    | nil => rfl
    | cons j items =>
      exact (run_firstItem j items stack rest).trans
        (run_itemTokens ih (List.cons_ne_nil _ _) [] stack rest)
  | object members ih =>
    intro stack rest
    cases members with
    | nil => rfl
    | cons e members =>
      refine Eq.trans ?_ (run_memberTokens ih (List.cons_ne_nil _ _) [] stack rest)
      cases members <;> rfl

theorem ofTokens?_tokens (j : Json) : ofTokens? j.tokens = some j := by
  have hrun := reads_tokens j [] []
  rw [List.append_nil] at hrun
  rw [ofTokens?, hrun]
  rfl

end Reads

/-- The text spells the tree. -/
def SpelledBy (j : Json) (text : String) : Prop := Spells j.tokens text.toList

theorem ofText?_of_spelledBy {j : Json} {text : String} (h : j.SpelledBy text) :
    ofText? text = some j := by
  rw [ofText?, Token.ofText?_of_spells h]
  exact ofTokens?_tokens j

section Spelling

/-- A tree of which every number has a text of its own. -/
inductive Proper : Json → Prop
  | null : Proper null
  | bool (b : Bool) : Proper (bool b)
  | number {n : Number} (h : n.plain = true → n.scale = 0) : Proper (number n)
  | string (s : Option String) : Proper (string s)
  | array {items : List Json} (h : ∀ j ∈ items, Proper j) : Proper (array items)
  | object {members : List (Option String × Json)} (h : ∀ e ∈ members, Proper e.2) :
    Proper (object members)

/-- The texts of the tokens spell them in front of what follows, where no number goes on. -/
def Spelled (l : List Token) : Prop :=
  ∀ ts cs, Spells ts cs → Ends cs → Spells (l ++ ts) (l.flatMap Token.text ++ cs)

theorem spelled_nil : Spelled [] := fun _ _ h _ => h

theorem spelled_cons (t : Token) (ht : ∀ n, t ≠ .number n) {l : List Token} (h : Spelled l) :
    Spelled (t :: l) := by
  intro ts cs hs he
  have hp : t.Proper := by
    cases t with
    | number n => exact absurd rfl (ht n)
    | _ => trivial
  rw [List.flatMap_cons, List.append_assoc]
  exact .token hp (fun n hn => absurd hn (ht n)) (h ts cs hs he)

theorem spelled_append {l l' : List Token} (h : Spelled l) (h' : Spelled l')
    (hends : ∀ cs, Ends (l'.flatMap Token.text ++ cs)) : Spelled (l ++ l') := by
  intro ts cs hs he
  rw [List.flatMap_append, List.append_assoc, List.append_assoc]
  exact h _ _ (h' ts cs hs he) (hends cs)

theorem spelled_before {l l' : List Token} (t : Token) (h : Spelled l) (h' : Spelled l')
    (ht : t = .comma ∨ t = .closeArray ∨ t = .closeObject) : Spelled (l ++ t :: l') := by
  have hends {c : Char} (hc : Token.continues c = false) (cs : List Char) : Ends (c :: cs) := by
    rintro _ ⟨⟩
    exact hc
  rcases ht with rfl | rfl | rfl <;>
    exact spelled_append h (spelled_cons _ (by nofun) h') fun _ => hends rfl _

theorem spelled_itemTokens {items : List Json} (h : ∀ j ∈ items, Spelled j.tokens) :
    Spelled (itemTokens items) := by
  induction items with
  | nil => exact spelled_cons _ (by nofun) spelled_nil
  | cons j items ih =>
    have hj := h j List.mem_cons_self
    cases items with
    | nil => exact spelled_before _ hj spelled_nil (.inr (.inl rfl))
    | cons i items =>
      rw [itemTokens]
      · exact spelled_before _ hj (ih fun j hj => h j (List.mem_cons_of_mem _ hj)) (.inl rfl)
      · exact List.cons_ne_nil _ _

theorem spelled_memberTokens {members : List (Option String × Json)}
    (h : ∀ e ∈ members, Spelled e.2.tokens) : Spelled (memberTokens members) := by
  induction members with
  | nil => exact spelled_cons _ (by nofun) spelled_nil
  | cons e members ih =>
    obtain ⟨k, j⟩ := e
    have hj : Spelled (.string k :: .colon :: j.tokens) :=
      spelled_cons _ (by nofun) (spelled_cons _ (by nofun) (h (k, j) List.mem_cons_self))
    cases members with
    | nil => exact spelled_before _ hj spelled_nil (.inr (.inr rfl))
    | cons e members =>
      rw [memberTokens]
      · exact spelled_before _ hj (ih fun e he => h e (List.mem_cons_of_mem _ he)) (.inl rfl)
      · exact List.cons_ne_nil _ _

theorem Proper.spelled {j : Json} (h : j.Proper) : Spelled j.tokens := by
  induction h with
  | null => exact spelled_cons _ (by nofun) spelled_nil
  | bool b => exact spelled_cons _ (by nofun) spelled_nil
  | string s => exact spelled_cons _ (by nofun) spelled_nil
  | @number n hn =>
    have hp : (Token.number n).Proper := hn
    intro ts cs hs he
    rw [tokens, List.flatMap_singleton]
    exact .token hp (fun _ _ => he) hs
  | array _ ih => exact spelled_cons _ (by nofun) (spelled_itemTokens ih)
  | object _ ih => exact spelled_cons _ (by nofun) (spelled_memberTokens ih)

/-- The text of a tree, without blanks, spells it. -/
theorem Proper.spelledBy_render {j : Json} (h : j.Proper) : j.SpelledBy j.render := by
  have hspells := h.spelled [] [] .nil (by rintro _ ⟨⟩)
  rw [List.append_nil, List.append_nil] at hspells
  rwa [SpelledBy, render, String.toList_ofList]

end Spelling

end FrozenDefaults.Json
