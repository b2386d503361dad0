import ServantRs.Support.Text
import Mathlib.Data.List.Nodup
import Mathlib.Logic.Relation

/-!
# Macros — record routes

A struct of endpoints is made into a nest of alternatives, and a record of handlers is made for it:
one field for each endpoint, each of a type parameter named after the field (`handlerGenerics`).
The name is the field's in camel case (`toPascal`): words are capitalized and underscores dropped.

* `nfc_toPascal_iff`: which names have one camel case: those that are respellings of each other.
* `handlers_wellFormed_iff`: when the record compiles; `item_generics`: type parameters may be
  repeated.
-/

namespace ServantRs.Macros

/-- The characters of identifiers: Unicode's `XID_Start` and `XID_Continue`. -/
class XidChars where
  xidStart : Char → Bool
  xidContinue : Char → Bool

/-- `rustc_lexer::is_ident` -/
def isIdent [XidChars] : List Char → Bool
  | []      => false
  | c :: cs => (c = '_' || XidChars.xidStart c) && cs.all XidChars.xidContinue

/-- What is used of Unicode: `char::to_uppercase`, whose characters are in upper case themselves,
and an underscore comes of no other character; the normal form C, in which the compiler has
identifiers, and two texts have one when they have one behind an ASCII letter. -/
class Unicode extends XidChars where
  toUppercase : Char → List Char
  nfc : List Char → List Char
  toUppercase_ne_nil : ∀ c, toUppercase c ≠ []
  toUppercase_of_mem : ∀ c, ∀ d ∈ toUppercase c, toUppercase d = [d]
  underscore_notMem : ∀ c, c ≠ '_' → '_' ∉ toUppercase c
  xidContinue_of_start : ∀ c, xidStart c = true → xidContinue c = true
  xidContinue_toUppercase : ∀ c, xidContinue c = true → ∀ d ∈ toUppercase c, xidContinue d = true
  xidStart_of_isAlpha : ∀ c : Char, c.isAlpha = true → xidStart c = true
  xidContinue_hash : xidContinue '#' = false
  isIdent_nfc : ∀ cs, isIdent cs = true → isIdent (nfc cs) = true
  hash_mem_nfc : ∀ cs, '#' ∈ cs → '#' ∈ nfc cs
  nfc_cons_inj : ∀ c cs ds, c.isAlpha = true → (nfc (c :: cs) = nfc (c :: ds) ↔ nfc cs = nfc ds)

/-- ASCII only. -/
@[reducible] def Unicode.reference : Unicode where
  xidStart c := c.isAlpha
  xidContinue c := c = '_' || c.isAlphanum
  toUppercase c := [c.toUpper]
  nfc cs := cs
  toUppercase_ne_nil _ := List.cons_ne_nil _ _
  toUppercase_of_mem c d hd := by
    obtain rfl := List.mem_singleton.mp hd
    rw [toUpper_toUpper]
  underscore_notMem c hc hmem := by
    have heq : '_' = c.toUpper := List.mem_singleton.mp hmem
    rcases toUpper_cases c with h | h
    · exact hc (heq.trans h).symm
    · rw [← heq] at h
      exact absurd h.2 (by decide)
  xidContinue_of_start c hc := by
    show (c = '_' || (c.isAlpha || c.isDigit)) = true
    rw [hc, Bool.true_or, Bool.or_true]
  xidContinue_toUppercase c hc d hd := by
    obtain rfl := List.mem_singleton.mp hd
    rcases toUpper_cases c with h | h
    · rw [h]
      exact hc
    · have hupper : c.toUpper.isUpper = true :=
        decide_eq_true (h.imp UInt32.le_iff_toNat_le.mpr UInt32.le_iff_toNat_le.mpr)
      show (c.toUpper = '_' || (c.toUpper.isUpper || c.toUpper.isLower || c.toUpper.isDigit)) = true
      rw [hupper, Bool.true_or, Bool.true_or, Bool.or_true]
  xidStart_of_isAlpha _ hc := hc
  xidContinue_hash := rfl
  isIdent_nfc _ h := h
  hash_mem_nfc _ h := h
  nfc_cons_inj _ _ _ _ := by simp

open XidChars Unicode

section General

variable [Unicode]

/-! ### The record of handlers -/

/-- A word with its first character in upper case. -/
def capitalize : List Char → List Char
  | []         => []
  | first :: w => toUppercase first ++ w

/-- `get_user` as `GetUser`. -/
def toPascal (s : String) : String :=
  String.ofList (((s.toList.splitOn '_').filter (· ≠ [])).flatMap capitalize)

/-- Items nested to the right. -/
inductive Nested (α : Type) where
  | unit
  | leaf (a : α)
  | pair (head : α) (rest : Nested α)
deriving DecidableEq, Repr

/-- `nest_type` and `nest_expr`. -/
def nest {α : Type} : List α → Nested α
  | []           => .unit
  | [one]        => .leaf one
  | head :: rest => .pair head (nest rest)

/-- What the macro is put on, fields by name and type. -/
inductive Data where
  | named (fields : List (String × String))
  | unnamed
  | notStruct

/-- The record of handlers: its type parameters, its fields with their types, and what
`into_handlers` makes of it. -/
structure HandlersRecord where
  name : String
  generics : List String
  fields : List (String × String)
  handlerTy : Nested String
  handlerVal : Nested String
deriving DecidableEq, Repr

/-- What is generated: the type and the value of the API, and the record. -/
structure NamedApi where
  apiTy : Nested String
  apiVal : Nested String
  handlers : HandlersRecord
deriving DecidableEq, Repr

/-- How the macro ends without a record: with an error it reports, or a panic. -/
inductive MacroError where
  | compileError (message : String)
  | panicked
deriving DecidableEq, Repr

/-- A name without the mark of a raw identifier, which `format_ident!` takes off an identifier. -/
def unraw (ident : String) : String := (stripPrefix "r#" ident).getD ident

/-- `format_ident!` for a text put together: the identifier it is, if it is one. -/
def formatIdent (text : String) : Except MacroError String :=
  let symbol := nfc text.toList
  if isIdent symbol then .ok (String.ofList symbol) else .error .panicked

/-- One type parameter for each field; `to_string` leaves the mark of a raw identifier on. -/
def handlerGenerics : List String → Except MacroError (List String)
  | []           => .ok []
  | id :: idents => do
    let generic ← formatIdent ("H" ++ toPascal id)
    let generics ← handlerGenerics idents
    pure (generic :: generics)

def namedFields : Data → Except MacroError (List (String × String))
  | .named fields => .ok fields
  | .unnamed      => .error (.compileError "expected a struct with named fields")
  | .notStruct    => .error (.compileError "expected a struct")

def deriveNamedApi (name : String) (data : Data) : Except MacroError NamedApi := do
  let fields ← namedFields data
  if fields.isEmpty then throw (.compileError "NamedApi requires at least one field")
  let idents := fields.map Prod.fst
  let handlersName ← formatIdent (unraw name ++ "Handlers")
  let generics ← handlerGenerics idents
  pure
    { apiTy := nest (fields.map Prod.snd)
      apiVal := nest idents
      handlers :=
        { name := handlersName
          generics
          fields := idents.zip generics
          handlerTy := nest generics
          handlerVal := nest idents } }

/-- A record that compiles: no two fields and no two type parameters of one name, each field of
the type parameter in its place, and no type parameter of the record's name, which would stand for
it in `impl`. -/
structure HandlersRecord.WellFormed (r : HandlersRecord) : Prop where
  fields_nodup : (r.fields.map Prod.fst).Nodup
  fields_generics : r.fields.map Prod.snd = r.generics
  generics_nodup : r.generics.Nodup
  name_notMem : r.name ∉ r.generics

/-! ### Camel case, character by character -/

/-- The camel case of a name; `start`: a word begins here. -/
def pascal (start : Bool) : List Char → List Char
  | []      => []
  | c :: cs =>
    if c = '_' then pascal true cs
    else (if start then toUppercase c else [c]) ++ pascal false cs

theorem flatMap_capitalize_filter (ws : List (List Char)) :
    (ws.filter (· ≠ [])).flatMap capitalize = ws.flatMap capitalize := by
  induction ws with
  | nil => rfl
  | cons w ws ih => cases w <;> simp [capitalize] at ih ⊢ <;> exact ih

/-- The words of a name, cut at once or found one by one. -/
theorem pascal_eq (cs : List Char) : ∃ w ws, cs.splitOn '_' = w :: ws ∧
    ∀ start, pascal start cs
      = (if start then capitalize w else w) ++ ws.flatMap capitalize := by
  induction cs with
  | nil => exact ⟨[], [], rfl, fun start => by cases start <;> rfl⟩
  | cons c cs ih =>
      obtain ⟨w, ws, hsplit, hpascal⟩ := ih
      rw [List.splitOn_cons_eq_if_modifyHead, hsplit]
      by_cases hc : c = '_'
      · subst hc
        refine ⟨[], w :: ws, rfl, fun start => ?_⟩
        rw [pascal, if_pos rfl, hpascal true]
        cases start <;> rfl
      · refine ⟨c :: w, ws, by simp [hc], fun start => ?_⟩
        rw [pascal, if_neg hc, hpascal false]
        cases start <;> simp [capitalize]

theorem toPascal_eq (s : String) : toPascal s = String.ofList (pascal true s.toList) := by
  obtain ⟨w, ws, hsplit, hpascal⟩ := pascal_eq s.toList
  rw [toPascal, flatMap_capitalize_filter, hsplit, hpascal true, List.flatMap_cons, if_pos rfl]

/-- What stands after `cs`: the beginning of a word or its middle. -/
def startsAfter (start : Bool) : List Char → Bool
  | []      => start
  | c :: cs => startsAfter (c = '_') cs

theorem pascal_append (start : Bool) (cs ds : List Char) :
    pascal start (cs ++ ds) = pascal start cs ++ pascal (startsAfter start cs) ds := by
  induction cs generalizing start with
  | nil => rfl
  | cons c cs ih =>
      rw [List.cons_append, pascal, pascal, startsAfter]
      by_cases hc : c = '_'
      · rw [if_pos hc, if_pos hc, ih, decide_eq_true hc]
      · rw [if_neg hc, if_neg hc, ih, decide_eq_false hc, List.append_assoc]

theorem pascal_of_notMem {cs : List Char} (h : '_' ∉ cs) (ds : List Char) :
    pascal false (cs ++ ds) = cs ++ pascal false ds := by
  induction cs with
  | nil => rfl
  | cons c cs ih =>
      rw [List.mem_cons, not_or] at h
      rw [List.cons_append, pascal, if_neg (Ne.symm h.1), ih h.2]
      rfl

theorem exists_toUppercase {c : Char} (hc : c ≠ '_') :
    ∃ d ds, toUppercase c = d :: ds ∧ d ≠ '_' ∧ '_' ∉ ds ∧ toUppercase d = [d] := by
  have hnone := underscore_notMem c hc
  obtain ⟨d, ds, hds⟩ := List.exists_cons_of_ne_nil (toUppercase_ne_nil c)
  rw [hds, List.mem_cons, not_or] at hnone
  exact ⟨d, ds, hds, Ne.symm hnone.1, hnone.2, toUppercase_of_mem c d (hds ▸ List.mem_cons_self)⟩

/-- A character in upper case begins a word as it is. -/
theorem pascal_toUppercase {c : Char} (hc : c ≠ '_') (start : Bool) (cs : List Char) :
    pascal start (toUppercase c ++ cs) = toUppercase c ++ pascal false cs := by
  obtain ⟨d, ds, hds, hd, hnone, hself⟩ := exists_toUppercase hc
  rw [hds, List.cons_append, pascal, if_neg hd, hself, ite_self, pascal_of_notMem hnone]
  rfl

theorem underscore_notMem_pascal (start : Bool) (cs : List Char) : '_' ∉ pascal start cs := by
  induction cs generalizing start with
  | nil => exact List.not_mem_nil
  | cons c cs ih =>
      rw [pascal]
      by_cases hc : c = '_'
      · rw [if_pos hc]
        exact ih true
      · rw [if_neg hc, List.mem_append, not_or]
        refine ⟨?_, ih false⟩
        cases start with
        | false => simpa using Ne.symm hc
        | true => exact underscore_notMem c hc

/-- A character of the camel case is one of the name, as it is or in upper case. -/
theorem mem_pascal {start : Bool} {cs : List Char} {d : Char} (h : d ∈ pascal start cs) :
    ∃ c ∈ cs, c ≠ '_' ∧ (d = c ∨ d ∈ toUppercase c) := by
  induction cs generalizing start with
  | nil => cases h
  | cons c cs ih =>
      rw [pascal] at h
      by_cases hc : c = '_'
      · rw [if_pos hc] at h
        obtain ⟨c', hmem, hc'⟩ := ih h
        exact ⟨c', List.mem_cons_of_mem _ hmem, hc'⟩
      · rw [if_neg hc, List.mem_append] at h
        rcases h with h | h
        · refine ⟨c, List.mem_cons_self, hc, ?_⟩
          cases start with
          | false => exact .inl (by simpa using h)
          | true => exact .inr h
        · obtain ⟨c', hmem, hc'⟩ := ih h
          exact ⟨c', List.mem_cons_of_mem _ hmem, hc'⟩

/-! ### Respellings -/

/-- No underscore, and an upper-case letter first. -/
def Camel (cs : List Char) : Prop := '_' ∉ cs ∧ ∀ c ∈ cs.head?, toUppercase c = [c]

/-- A name spelled in another way: its first letter in upper case, an underscore left out before a
letter in upper case, an underscore left out at the end; and names in camel case for one another
that are canonically equivalent. -/
inductive Respelling : List Char → List Char → Prop where
  | first (c : Char) (cs : List Char) (hc : c ≠ '_') : Respelling (c :: cs) (toUppercase c ++ cs)
  | word (cs : List Char) (c : Char) (ds : List Char) (hc : c ≠ '_') :
      Respelling (cs ++ '_' :: c :: ds) (cs ++ (toUppercase c ++ ds))
  | trailing (cs : List Char) : Respelling (cs ++ ['_']) cs
  | canonical (cs ds : List Char) (hcs : Camel cs) (hds : Camel ds) (h : nfc cs = nfc ds) :
      Respelling cs ds

/-- Two names are respellings of each other, by any number of changes either way. -/
def Respelled (a b : String) : Prop := Relation.EqvGen Respelling a.toList b.toList

theorem pascal_of_camel {cs : List Char} (h : Camel cs) : pascal true cs = cs := by
  cases cs with
  | nil => rfl
  | cons c cs =>
      have hc : c ≠ '_' := fun he => h.1 (he ▸ List.mem_cons_self)
      have hrest : '_' ∉ cs := fun hmem => h.1 (List.mem_cons_of_mem _ hmem)
      have hfirst : toUppercase c = [c] := h.2 c rfl
      have hpascal := pascal_of_notMem hrest []
      rw [List.append_nil] at hpascal
      rw [pascal, if_neg hc, if_pos rfl, hfirst, hpascal]
      simp [pascal]

/-- A respelling keeps the camel case, up to the normal form. -/
theorem nfc_pascal_respelling {cs ds : List Char} (h : Respelling cs ds) :
    nfc (pascal true cs) = nfc (pascal true ds) := by
  cases h with
  | first c cs hc => rw [pascal, if_neg hc, if_pos rfl, pascal_toUppercase hc]
  | word cs c ds hc =>
      rw [pascal_append, pascal_append, pascal_toUppercase hc, pascal, if_pos rfl, pascal,
        if_neg hc, if_pos rfl]
  | trailing cs =>
      rw [pascal_append, pascal, if_pos rfl, pascal, List.append_nil]
  | canonical _ _ hcs hds h => rw [pascal_of_camel hcs, pascal_of_camel hds, h]

theorem nfc_pascal_of_eqvGen {cs ds : List Char} (h : Relation.EqvGen Respelling cs ds) :
    nfc (pascal true cs) = nfc (pascal true ds) := by
  induction h with
  | rel cs ds h => exact nfc_pascal_respelling h
  | refl cs => rfl
  | symm cs ds _ ih => exact ih.symm
  | trans cs ds es _ _ ih₁ ih₂ => exact ih₁.trans ih₂

/-- Camel case is empty or begins with a letter in upper case. -/
theorem pascal_true_cases (cs : List Char) :
    pascal true cs = [] ∨ ∃ d ds, pascal true cs = d :: ds ∧ d ≠ '_' ∧ toUppercase d = [d] := by
  induction cs with
  | nil => exact .inl rfl
  | cons c cs ih =>
      rw [pascal]
      by_cases hc : c = '_'
      · rw [if_pos hc]
        exact ih
      · obtain ⟨d, ds, hds, hd, -, hself⟩ := exists_toUppercase hc
        rw [if_neg hc, if_pos rfl, hds]
        exact .inr ⟨d, _, rfl, hd, hself⟩

/-- An underscore before camel case is left out. -/
theorem eqvGen_underscore (x cs : List Char) :
    Relation.EqvGen Respelling (x ++ '_' :: pascal true cs) (x ++ pascal true cs) := by
  rcases pascal_true_cases cs with hnil | ⟨d, ds, hcons, hd, hself⟩
  · rw [hnil, List.append_nil]
    exact .rel _ _ (.trailing x)
  · have hword := Respelling.word x d ds hd
    rw [hself] at hword
    rw [hcons]
    exact .rel _ _ hword

/-- A name becomes its camel case one respelling after the other, from the left. -/
theorem eqvGen_pascal (cs : List Char) :
    (∀ x, Relation.EqvGen Respelling (x ++ cs) (x ++ pascal false cs)) ∧
      ∀ x, Relation.EqvGen Respelling (x ++ '_' :: cs) (x ++ pascal true cs) := by
  induction cs with
  | nil =>
      refine ⟨fun x => .refl _, fun x => ?_⟩
      rw [pascal, List.append_nil]
      exact .rel _ _ (.trailing x)
  | cons c cs ih =>
      obtain ⟨ihmiddle, ihstart⟩ := ih
      by_cases hc : c = '_'
      · subst hc
        refine ⟨fun x => ?_, fun x => ?_⟩
        · rw [pascal, if_pos rfl]
          exact ihstart x
        · have hstep := ihstart (x ++ ['_'])
          rw [List.append_assoc, List.append_assoc] at hstep
          rw [pascal, if_pos rfl]
          exact .trans _ _ _ hstep (eqvGen_underscore x cs)
      · refine ⟨fun x => ?_, fun x => ?_⟩
        · have hstep := ihmiddle (x ++ [c])
          rw [pascal, if_neg hc]
          simpa using hstep
        · rw [pascal, if_neg hc, if_pos rfl]
          have hstep := ihmiddle (x ++ toUppercase c)
          rw [List.append_assoc, List.append_assoc] at hstep
          exact .trans _ _ _ (.rel _ _ (.word x c cs hc)) hstep

theorem eqvGen_pascal_true (cs : List Char) :
    Relation.EqvGen Respelling cs (pascal true cs) := by
  cases cs with
  | nil => exact .refl _
  | cons c cs =>
      rw [pascal]
      by_cases hc : c = '_'
      · rw [if_pos hc, hc]
        exact (eqvGen_pascal cs).2 []
      · rw [if_neg hc, if_pos rfl]
        exact .trans _ _ _ (.rel _ _ (.first c cs hc)) ((eqvGen_pascal cs).1 _)

theorem camel_pascal (cs : List Char) : Camel (pascal true cs) := by
  refine ⟨underscore_notMem_pascal true cs, fun c hc => ?_⟩
  rcases pascal_true_cases cs with hnil | ⟨d, ds, hcons, -, hself⟩
  · rw [hnil] at hc
    cases hc
  · rw [hcons] at hc
    obtain rfl := Option.some.inj hc
    exact hself

/-- **Which names have one camel case.** -/
theorem nfc_toPascal_iff {a b : String} :
    nfc (toPascal a).toList = nfc (toPascal b).toList ↔ Respelled a b := by
  rw [toPascal_eq, toPascal_eq, String.toList_ofList, String.toList_ofList]
  constructor
  · intro h
    have hcamel : Respelling (pascal true a.toList) (pascal true b.toList) :=
      .canonical _ _ (camel_pascal _) (camel_pascal _) h
    exact .trans _ _ _ (eqvGen_pascal_true a.toList)
      (.trans _ _ _ (.rel _ _ hcamel) (.symm _ _ (eqvGen_pascal_true b.toList)))
  · exact nfc_pascal_of_eqvGen

/-! ### The type parameters of a record -/

/-- A raw identifier, as it is spelled. -/
def Raw (ident : String) : Prop := ∃ name, ident = "r#" ++ name

/-- An identifier, raw or not. -/
def IsIdent (ident : String) : Prop := isIdent (unraw ident).toList = true

omit [Unicode] in
theorem unraw_of_not_raw {ident : String} (h : ¬ Raw ident) : unraw ident = ident := by
  have hnone : stripPrefix "r#" ident = none :=
    Option.eq_none_iff_forall_ne_some.mpr fun name hname =>
      h ⟨name, stripPrefix_eq_some_iff.mp hname⟩
  rw [unraw, hnone, Option.getD_none]

theorem xidContinue_of_isIdent {cs : List Char} (h : isIdent cs = true) {c : Char} (hmem : c ∈ cs)
    (hc : c ≠ '_') : xidContinue c = true := by
  cases cs with
  | nil => cases hmem
  | cons d cs =>
      rw [isIdent, Bool.and_eq_true, Bool.or_eq_true, decide_eq_true_eq, List.all_eq_true] at h
      rcases List.mem_cons.mp hmem with rfl | hmem
      · exact xidContinue_of_start _ (h.1.resolve_left hc)
      · exact h.2 c hmem

/-- The name of the type parameter of a field. -/
def genericOf (ident : String) : String := String.ofList (nfc ("H" ++ toPascal ident).toList)

omit [Unicode] in
theorem toList_H (s : String) : ("H" ++ s).toList = 'H' :: s.toList := by simp

theorem formatIdent_of_isIdent {text : String} (h : isIdent text.toList = true) :
    formatIdent text = .ok (String.ofList (nfc text.toList)) := by
  rw [formatIdent, if_pos (isIdent_nfc _ h)]

theorem formatIdent_field {ident : String} (hident : IsIdent ident) (hraw : ¬ Raw ident) :
    formatIdent ("H" ++ toPascal ident) = .ok (genericOf ident) := by
  rw [IsIdent, unraw_of_not_raw hraw] at hident
  refine formatIdent_of_isIdent ?_
  have hstart : xidStart 'H' = true := xidStart_of_isAlpha _ rfl
  rw [toList_H, isIdent, hstart, Bool.or_true, Bool.true_and, List.all_eq_true, toPascal_eq,
    String.toList_ofList]
  intro d hd
  obtain ⟨c, hmem, hc, hd⟩ := mem_pascal hd
  have hcont := xidContinue_of_isIdent hident hmem hc
  rcases hd with rfl | hd
  · exact hcont
  · exact xidContinue_toUppercase c hcont d hd

/-- A raw identifier keeps its `#`, and no identifier has one. -/
theorem formatIdent_raw {ident : String} (hraw : Raw ident) :
    formatIdent ("H" ++ toPascal ident) = .error .panicked := by
  obtain ⟨name, rfl⟩ := hraw
  have hlist : ("r#" ++ name).toList = 'r' :: '#' :: name.toList := by simp
  have hr : ¬ 'r' = '_' := by decide
  have hmark : ¬ '#' = '_' := by decide
  have hhash : '#' ∈ ("H" ++ toPascal ("r#" ++ name)).toList := by
    rw [toList_H, toPascal_eq, String.toList_ofList, hlist, pascal, if_neg hr, pascal,
      if_neg hmark]
    simp
  have hno : ¬ isIdent (nfc ("H" ++ toPascal ("r#" ++ name)).toList) = true := by
    intro h
    have hcont := xidContinue_of_isIdent h (hash_mem_nfc _ hhash) (by decide)
    rw [xidContinue_hash] at hcont
    cases hcont
  rw [formatIdent, if_neg hno]

theorem handlerGenerics_ok {idents : List String} (hidents : ∀ id ∈ idents, IsIdent id)
    (hraw : ∀ id ∈ idents, ¬ Raw id) : handlerGenerics idents = .ok (idents.map genericOf) := by
  induction idents with
  | nil => rfl
  | cons id idents ih =>
      rw [List.forall_mem_cons] at hidents hraw
      rw [handlerGenerics, formatIdent_field hidents.1 hraw.1, ih hidents.2 hraw.2]
      rfl

theorem handlerGenerics_raw {idents : List String} (hidents : ∀ id ∈ idents, IsIdent id)
    {id : String} (hid : id ∈ idents) (hraw : Raw id) :
    handlerGenerics idents = .error .panicked := by
  induction idents with
  | nil => cases hid
  | cons first idents ih =>
      rw [List.forall_mem_cons] at hidents
      rw [handlerGenerics]
      by_cases hfirst : Raw first
      · rw [formatIdent_raw hfirst]
        rfl
      · have hid' : id ∈ idents := by
          rcases List.mem_cons.mp hid with rfl | h
          · exact absurd hraw hfirst
          · exact h
        rw [formatIdent_field hidents.1 hfirst, ih hidents.2 hid']
        rfl

/-- The name of the record. -/
def handlersName (name : String) : String := String.ofList (nfc (unraw name ++ "Handlers").toList)

theorem formatIdent_name {name : String} (hname : IsIdent name) :
    formatIdent (unraw name ++ "Handlers") = .ok (handlersName name) := by
  refine formatIdent_of_isIdent ?_
  rw [IsIdent] at hname
  rw [String.toList_append]
  cases h : (unraw name).toList with
  | nil =>
      rw [h] at hname
      cases hname
  | cons c cs =>
      have halpha : "Handlers".toList.all Char.isAlpha = true := rfl
      rw [h, isIdent, Bool.and_eq_true, List.all_eq_true] at hname
      rw [List.cons_append, isIdent, Bool.and_eq_true, List.all_eq_true]
      refine ⟨hname.1, fun d hd => ?_⟩
      rcases List.mem_append.mp hd with hd | hd
      · exact hname.2 d hd
      · exact xidContinue_of_start d (xidStart_of_isAlpha d (List.all_eq_true.mp halpha d hd))

/-- The record has the fields of the struct, in order, each of the type parameter named after it,
and its handlers are nested as the API is. -/
theorem deriveNamedApi_named {name : String} {fields : List (String × String)}
    (hname : IsIdent name) (hne : fields ≠ []) :
    deriveNamedApi name (.named fields) = (handlerGenerics (fields.map Prod.fst)).map fun generics =>
      { apiTy := nest (fields.map Prod.snd)
        apiVal := nest (fields.map Prod.fst)
        handlers :=
          { name := handlersName name
            generics
            fields := (fields.map Prod.fst).zip generics
            handlerTy := nest generics
            handlerVal := nest (fields.map Prod.fst) } } := by
  cases fields with
  | nil => exact absurd rfl hne
  | cons field fields =>
      simp only [deriveNamedApi, namedFields, bind, Except.bind, formatIdent_name hname,
        List.isEmpty_cons, Bool.false_eq_true, if_false]
      cases handlerGenerics ((field :: fields).map Prod.fst) with
      | error e => rfl
      | ok generics => rfl

/-- The type parameter of a field has the name of the record. -/
def NamedAsRecord (name ident : String) : Prop :=
  nfc ("H" ++ toPascal ident).toList = nfc (unraw name ++ "Handlers").toList

theorem genericOf_eq_iff {a b : String} : genericOf a = genericOf b ↔ Respelled a b := by
  rw [genericOf, genericOf, String.ofList_inj, toList_H, toList_H, nfc_cons_inj _ _ _ rfl,
    nfc_toPascal_iff]

/-- **When the record compiles**: no field is a raw identifier, no two are respellings of each
other, and none gives a type parameter the record's name. -/
theorem handlers_wellFormed_iff {name : String} {fields : List (String × String)}
    (hname : IsIdent name) (hfields : ∀ id ∈ fields.map Prod.fst, IsIdent id) (hne : fields ≠ [])
    (hnodup : (fields.map Prod.fst).Nodup) :
    (∃ d, deriveNamedApi name (.named fields) = .ok d ∧ d.handlers.WellFormed) ↔
      (∀ id ∈ fields.map Prod.fst, ¬ Raw id) ∧
      (fields.map Prod.fst).Pairwise (fun a b => ¬ Respelled a b) ∧
      ∀ id ∈ fields.map Prod.fst, ¬ NamedAsRecord name id := by
  rw [deriveNamedApi_named hname hne]
  generalize fields.map Prod.fst = idents at hfields hnodup ⊢
  by_cases hraw : ∀ id ∈ idents, ¬ Raw id
  · have hnames : (idents.map genericOf).Nodup ↔ idents.Pairwise fun a b => ¬ Respelled a b := by
      rw [List.Nodup, List.pairwise_map]
      simp only [ne_eq, genericOf_eq_iff]
    have hrecord : handlersName name ∉ idents.map genericOf ↔
        ∀ id ∈ idents, ¬ NamedAsRecord name id := by
      simp only [List.mem_map, not_exists, not_and, genericOf, handlersName, String.ofList_inj,
        NamedAsRecord]
    rw [handlerGenerics_ok hfields hraw, ← hnames, ← hrecord]
    constructor
    · rintro ⟨d, hd, hwell⟩
      obtain rfl := Except.ok.inj hd
      exact ⟨hraw, hwell.generics_nodup, hwell.name_notMem⟩
    · rintro ⟨-, hgenerics, hnot⟩
      have hlen : (idents.map genericOf).length = idents.length := List.length_map _
      refine ⟨_, rfl, ⟨?_, ?_, hgenerics, hnot⟩⟩
      · exact (List.map_fst_zip hlen.ge).symm ▸ hnodup
      · exact List.map_snd_zip hlen.le
  · rw [not_forall] at hraw
    obtain ⟨id, hraw⟩ := hraw
    rw [Classical.not_imp, not_not] at hraw
    rw [handlerGenerics_raw hfields hraw.1 hraw.2]
    constructor
    · rintro ⟨d, hd, -⟩
      cases hd
    · exact fun h => absurd hraw.2 (h.1 id hraw.1)

end General

/-! ### A type parameter repeated -/

section

attribute [local instance] Unicode.reference

theorem not_raw_of_head {ident : String} (h : ident.toList.head? ≠ some 'r') : ¬ Raw ident := by
  rintro ⟨name, rfl⟩
  simp at h

/-- A struct of the fields `item_2` and `item2`. -/
theorem item_generics : ¬ ∀ (name : String) (fields : List (String × String)), IsIdent name →
    (∀ id ∈ fields.map Prod.fst, IsIdent id ∧ ¬ Raw id) → fields ≠ [] →
    (fields.map Prod.fst).Nodup →
      ∃ d, deriveNamedApi name (.named fields) = .ok d ∧ d.handlers.generics.Nodup := by
  intro h
  have hident : ∀ id ∈ ["item_2", "item2"], IsIdent id ∧ ¬ Raw id := by
    intro id hid
    rcases List.mem_pair.mp hid with rfl | rfl
    · exact ⟨rfl, not_raw_of_head (by decide)⟩
    · exact ⟨rfl, not_raw_of_head (by decide)⟩
  obtain ⟨d, hd, hnodup⟩ := h "Api" [("item_2", "A"), ("item2", "B")] rfl hident (by simp)
    (by simp)
  obtain rfl := Except.ok.inj hd
  exact absurd hnodup (by decide)

/-- A struct of the field `item` has its record. -/
theorem handlers_wellFormed_iff_item :
    (∃ d, deriveNamedApi "Api" (.named [("item", "A")]) = .ok d ∧ d.handlers.WellFormed) ↔
      (∀ id ∈ ["item"], ¬ Raw id) ∧ ["item"].Pairwise (fun a b => ¬ Respelled a b) ∧
      ∀ id ∈ ["item"], ¬ NamedAsRecord "Api" id := by
  have hname : IsIdent "Api" := rfl
  have hident : ∀ id ∈ ["item"], IsIdent id := by
    intro id hid
    obtain rfl := List.mem_singleton.mp hid
    rfl
  exact handlers_wellFormed_iff hname hident (by simp) (by simp)

end

end ServantRs.Macros
