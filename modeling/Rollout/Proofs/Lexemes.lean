import Mathlib.Data.List.Basic
import Rollout.Json.Text

/-! Documents and the tokens of their texts. A text is one document with nothing behind it just if its tokens are
those of a document that is whole. -/

namespace Rollout

open Json

namespace Doc

/-- Documents without a gap. Keys are strings, and all that was opened is closed. -/
inductive Whole : Doc → Prop
  | null : Whole null
  | bool (b : Bool) : Whole (bool b)
  | number (n : Option Number) : Whole (number n)
  | string (s : Option String) : Whole (string s)
  | array {items : List Doc} (values : ∀ d ∈ items, Whole d) : Whole (array items true)
  | object {members : List (Doc × Doc)} (keys : ∀ m ∈ members, ∃ s, m.1 = .string s)
      (values : ∀ m ∈ members, Whole m.2) : Whole (object members true)

/-- Lists of tokens with commas between them. -/
def commas : List (List Token) → List Token
  | [] => []
  | ts :: rest => ts ++ rest.flatMap (.comma :: ·)

mutual

/-- The tokens of a document. -/
def lexemes : Doc → List Token
  | null => [.null]
  | bool b => [.bool b]
  | number n => [.number n]
  | string s => [.string s]
  | array items _ => .openBracket :: (commas (itemLexemes items) ++ [.closeBracket])
  | object members _ => .openBrace :: (commas (memberLexemes members) ++ [.closeBrace])
  | broken | scalar _ | tagged _ _ => []

def itemLexemes : List Doc → List (List Token)
  | [] => []
  | d :: rest => lexemes d :: itemLexemes rest

def memberLexemes : List (Doc × Doc) → List (List Token)
  | [] => []
  | (k, d) :: rest => (lexemes k ++ .colon :: lexemes d) :: memberLexemes rest

end

/-- Whether a text consists of the tokens of a document. -/
def Spells (d : Doc) (s : String) : Prop := d.Whole ∧ tokenize s = d.lexemes

theorem itemLexemes_eq_map (items : List Doc) : itemLexemes items = items.map lexemes := by
  induction items with
  | nil => rfl
  | cons d items ih => rw [itemLexemes, ih, List.map_cons]

theorem memberLexemes_eq_map (members : List (Doc × Doc)) :
    memberLexemes members = members.map fun m => m.1.lexemes ++ .colon :: m.2.lexemes := by
  induction members with
  | nil => rfl
  | cons m members ih => rw [memberLexemes, ih, List.map_cons]

theorem commas_cons_cons (xs ys : List Token) (rest : List (List Token)) :
    commas (xs :: ys :: rest) = xs ++ .comma :: commas (ys :: rest) := rfl

theorem commas_concat (xs : List (List Token)) (ts : List Token) :
    commas (xs ++ [ts]) = xs.flatMap (· ++ [.comma]) ++ ts := by
  induction xs with
  | nil => simp [commas]
  | cons x xs ih =>
    have hrest : (xs ++ [ts]).flatMap (Token.comma :: ·) = .comma :: commas (xs ++ [ts]) := by
      cases xs <;> rfl
    rw [List.cons_append, commas, hrest, ih, List.flatMap_cons, List.append_assoc, List.append_assoc]
    rfl

end Doc

namespace Json

/-- What becomes of a finished value inside open containers. -/
def after (d : Doc) (ts : List Token) : List Open → Doc × Bool
  | [] => (d, ts.isEmpty)
  | o :: rest => assemble ts (o.put d :: rest) .next

section Assemble

variable {ts : List Token} {stack : List Open} {want : Want}

theorem assemble_leaf (hwant : want = .value ∨ want = .firstItem) {t : Token} {d : Doc}
    (ht : t.leaf? = some d) : assemble (t :: ts) stack want = after d ts stack := by
  rcases hwant with rfl | rfl <;> cases t <;> cases ht <;> cases stack <;> rfl

theorem assemble_openBracket (hwant : want = .value ∨ want = .firstItem) :
    assemble (.openBracket :: ts) stack want = assemble ts (.array [] :: stack) .firstItem := by
  rcases hwant with rfl | rfl <;> rfl

theorem assemble_openBrace (hwant : want = .value ∨ want = .firstItem) :
    assemble (.openBrace :: ts) stack want = assemble ts (.object [] none :: stack) .firstKey := by
  rcases hwant with rfl | rfl <;> rfl

theorem assemble_closeBracket (hwant : want = .firstItem ∨ want = .next) (items : List Doc) :
    assemble (.closeBracket :: ts) (.array items :: stack) want =
      after (.array items.reverse true) ts stack := by
  rcases hwant with rfl | rfl <;> cases stack <;> rfl

theorem assemble_closeBrace (hwant : want = .firstKey ∨ want = .next) (members : List (Doc × Doc)) :
    assemble (.closeBrace :: ts) (.object members none :: stack) want =
      after (.object members.reverse true) ts stack := by
  rcases hwant with rfl | rfl <;> cases stack <;> rfl

theorem assemble_key (hwant : want = .firstKey ∨ want = .key) (k : Option String)
    (members : List (Doc × Doc)) :
    assemble (.string k :: .colon :: ts) (.object members none :: stack) want =
      assemble ts (.object members (some (.string k)) :: stack) .value := by
  rcases hwant with rfl | rfl <;> rfl

end Assemble

section Whole

variable {ts : List Token} {stack : List Open} {want : Want}

theorem assemble_items {items : List Doc} (hi : ∀ d ∈ items, ∀ {ts stack},
      assemble (d.lexemes ++ ts) stack .value = after d ts stack) (done : List Doc) :
    assemble ((items.map Doc.lexemes).flatMap (.comma :: ·) ++ .closeBracket :: ts) (.array done :: stack) .next =
      after (.array (done.reverse ++ items) true) ts stack := by
  induction items generalizing done with
  | nil =>
    rw [List.append_nil]
    exact assemble_closeBracket (Or.inr rfl) done
  | cons d items ih =>
    obtain ⟨hd, hi⟩ := List.forall_mem_cons.mp hi
    rw [List.map_cons, List.flatMap_cons, List.append_assoc, List.cons_append]
    refine Eq.trans hd ((ih hi (d :: done)).trans ?_)
    rw [List.reverse_cons, List.append_assoc]
    rfl

theorem assemble_member (hwant : want = .firstKey ∨ want = .key) {m : Doc × Doc} (hkey : ∃ s, m.1 = .string s)
    (hi : ∀ {ts stack}, assemble (m.2.lexemes ++ ts) stack .value = after m.2 ts stack)
    (done : List (Doc × Doc)) :
    assemble ((m.1.lexemes ++ .colon :: m.2.lexemes) ++ ts) (.object done none :: stack) want =
      assemble ts (.object (m :: done) none :: stack) .next := by
  obtain ⟨k, d⟩ := m
  obtain ⟨s, hs⟩ := hkey
  obtain rfl : k = .string s := hs
  exact (assemble_key hwant s done).trans hi

theorem assemble_members {members : List (Doc × Doc)} (hkeys : ∀ m ∈ members, ∃ s, m.1 = .string s)
    (hi : ∀ m ∈ members, ∀ {ts stack}, assemble (m.2.lexemes ++ ts) stack .value = after m.2 ts stack)
    (done : List (Doc × Doc)) :
    assemble ((members.map fun m => m.1.lexemes ++ .colon :: m.2.lexemes).flatMap (.comma :: ·) ++
        .closeBrace :: ts) (.object done none :: stack) .next =
      after (.object (done.reverse ++ members) true) ts stack := by
  induction members generalizing done with
  | nil =>
    rw [List.append_nil]
    exact assemble_closeBrace (Or.inr rfl) done
  | cons m members ih =>
    obtain ⟨hd, hi⟩ := List.forall_mem_cons.mp hi
    obtain ⟨hkey, hkeys⟩ := List.forall_mem_cons.mp hkeys
    rw [List.map_cons, List.flatMap_cons, List.append_assoc, List.cons_append]
    refine (assemble_member (Or.inr rfl) hkey hd done).trans ((ih hkeys hi (m :: done)).trans ?_)
    rw [List.reverse_cons, List.append_assoc]
    rfl

theorem assemble_lexemes {d : Doc} (h : d.Whole) (hwant : want = .value ∨ want = .firstItem) :
    assemble (d.lexemes ++ ts) stack want = after d ts stack := by
  induction h generalizing ts stack want with
  | null | bool | number | string => exact assemble_leaf hwant rfl
  | @array items values ih =>
    rw [Doc.lexemes, Doc.itemLexemes_eq_map, List.cons_append, assemble_openBracket hwant, List.append_assoc]
    cases items with
    | nil => exact assemble_closeBracket (Or.inl rfl) []
    | cons d items =>
      obtain ⟨hd, hi⟩ := List.forall_mem_cons.mp ih
      rw [List.map_cons, Doc.commas, List.append_assoc, hd (Or.inr rfl)]
      exact assemble_items (fun e he => hi e he (Or.inl rfl)) [d]
  | @object members keys values ih =>
    rw [Doc.lexemes, Doc.memberLexemes_eq_map, List.cons_append, assemble_openBrace hwant, List.append_assoc]
    cases members with
    | nil => exact assemble_closeBrace (Or.inl rfl) []
    | cons m members =>
      obtain ⟨hd, hi⟩ := List.forall_mem_cons.mp ih
      obtain ⟨hkey, hkeys⟩ := List.forall_mem_cons.mp keys
      rw [List.map_cons, Doc.commas, List.append_assoc, assemble_member (Or.inl rfl) hkey (hd (Or.inl rfl))]
      exact assemble_members hkeys (fun e he => hi e he (Or.inl rfl)) [m]

theorem document_of_spells {d : Doc} {s : String} (h : d.Spells s) : document s = (d, true) := by
  have hread : assemble (d.lexemes ++ []) [] .value = after d [] [] := assemble_lexemes h.1 (Or.inl rfl)
  rw [List.append_nil] at hread
  rw [document, h.2, hread]
  rfl

end Whole

section Spent

/-- The tokens that led to what an open container holds, up to where its next value or key stands. -/
def Open.spent : Open → List Token
  | .array items => .openBracket :: (items.map Doc.lexemes).reverse.flatMap (· ++ [.comma])
  | .object members none =>
    .openBrace :: (members.map fun m => m.1.lexemes ++ .colon :: m.2.lexemes).reverse.flatMap (· ++ [.comma])
  | .object members (some k) =>
    .openBrace :: ((members.map fun m => m.1.lexemes ++ .colon :: m.2.lexemes).reverse.flatMap (· ++ [.comma]) ++
      (k.lexemes ++ [.colon]))

def spent (stack : List Open) : List Token := stack.reverse.flatMap Open.spent

/-- The tokens that led to where something is wanted. -/
def soFar (stack : List Open) : Want → List Token
  | .colon | .next => (spent stack).dropLast
  | _ => spent stack

def Open.Whole : Open → Prop
  | .array items => ∀ d ∈ items, d.Whole
  | .object members key => (∀ m ∈ members, (∃ s, m.1 = .string s) ∧ m.2.Whole) ∧ ∀ k ∈ key, ∃ s, k = .string s

def Open.Awaits : Open → Prop
  | .array _ => True
  | .object _ key => key.isSome = true

/-- What the innermost open container is like where something is wanted. -/
inductive Stands : Want → List Open → Prop
  | value {stack : List Open} (h : ∀ o ∈ stack, o.Awaits) : Stands .value stack
  | firstItem {stack : List Open} (h : ∀ o ∈ stack, o.Awaits) : Stands .firstItem (.array [] :: stack)
  | firstKey {stack : List Open} (h : ∀ o ∈ stack, o.Awaits) : Stands .firstKey (.object [] none :: stack)
  | key {members : List (Doc × Doc)} {stack : List Open} (h : ∀ o ∈ stack, o.Awaits) :
    Stands .key (.object members none :: stack)
  | colon {members : List (Doc × Doc)} {k : Doc} {stack : List Open} (h : ∀ o ∈ stack, o.Awaits) :
    Stands .colon (.object members (some k) :: stack)
  | nextItem {d : Doc} {items : List Doc} {stack : List Open} (h : ∀ o ∈ stack, o.Awaits) :
    Stands .next (.array (d :: items) :: stack)
  | nextMember {m : Doc × Doc} {members : List (Doc × Doc)} {stack : List Open}
    (h : ∀ o ∈ stack, o.Awaits) : Stands .next (.object (m :: members) none :: stack)

/-- What one token does on the way to a document. -/
inductive Moves (d : Doc) (ts : List Token) : Want → Token → List Open → Prop
  | leaf {want : Want} {t : Token} {x : Doc} {stack : List Open} (hwant : want = .value ∨ want = .firstItem)
    (ht : t.leaf? = some x) (h : after x ts stack = (d, true)) : Moves d ts want t stack
  | openBracket {want : Want} {stack : List Open} (hwant : want = .value ∨ want = .firstItem)
    (h : assemble ts (.array [] :: stack) .firstItem = (d, true)) : Moves d ts want .openBracket stack
  | openBrace {want : Want} {stack : List Open} (hwant : want = .value ∨ want = .firstItem)
    (h : assemble ts (.object [] none :: stack) .firstKey = (d, true)) : Moves d ts want .openBrace stack
  | closeBracket {want : Want} {items : List Doc} {stack : List Open} (hwant : want ≠ .value)
    (h : after (.array items.reverse true) ts stack = (d, true)) :
    Moves d ts want .closeBracket (.array items :: stack)
  | closeBrace {want : Want} {members : List (Doc × Doc)} {stack : List Open} (hwant : want ≠ .value ∧ want ≠ .key)
    (h : after (.object members.reverse true) ts stack = (d, true)) :
    Moves d ts want .closeBrace (.object members none :: stack)
  | commaItem {items : List Doc} {stack : List Open}
    (h : assemble ts (.array items :: stack) .value = (d, true)) :
    Moves d ts .next .comma (.array items :: stack)
  | commaMember {members : List (Doc × Doc)} {stack : List Open}
    (h : assemble ts (.object members none :: stack) .key = (d, true)) :
    Moves d ts .next .comma (.object members none :: stack)
  | colon {stack : List Open} (h : assemble ts stack .value = (d, true)) : Moves d ts .colon .colon stack
  | key {want : Want} {s : Option String} {members : List (Doc × Doc)} {stack : List Open}
    (hwant : want = .firstKey ∨ want = .key)
    (h : assemble ts (.object members (some (.string s)) :: stack) .colon = (d, true)) :
    Moves d ts want (.string s) (.object members none :: stack)

theorem moves_of_assemble {d : Doc} {t : Token} {ts : List Token} {want : Want} {stack : List Open}
    (hs : Stands want stack) (h : assemble (t :: ts) stack want = (d, true)) : Moves d ts want t stack := by
  have hleaf : ∀ {x}, (want = .value ∨ want = .firstItem) → t.leaf? = some x → Moves d ts want t stack :=
    fun hwant ht => .leaf hwant ht (by rwa [assemble_leaf hwant ht] at h)
  cases hs with
  | value => cases t with
    | openBracket => exact .openBracket (Or.inl rfl) h
    | openBrace => exact .openBrace (Or.inl rfl) h
    | null | bool | number | string => exact hleaf (Or.inl rfl) rfl
    | _ => exact absurd (congrArg Prod.snd h) Bool.false_ne_true
  | firstItem => cases t with
    | openBracket => exact .openBracket (Or.inr rfl) h
    | openBrace => exact .openBrace (Or.inr rfl) h
    | closeBracket => exact .closeBracket (by simp) (by rwa [assemble_closeBracket (Or.inl rfl)] at h)
    | null | bool | number | string => exact hleaf (Or.inr rfl) rfl
    | _ => exact absurd (congrArg Prod.snd h) Bool.false_ne_true
  | firstKey => cases t with
    | closeBrace => exact .closeBrace (by simp) (by rwa [assemble_closeBrace (Or.inl rfl)] at h)
    | string s => exact .key (Or.inl rfl) h
    | _ => exact absurd (congrArg Prod.snd h) Bool.false_ne_true
  | key => cases t with
    | string s => exact .key (Or.inr rfl) h
    | _ => exact absurd (congrArg Prod.snd h) Bool.false_ne_true
  | colon => cases t with
    | colon => exact .colon h
    | _ => exact absurd (congrArg Prod.snd h) Bool.false_ne_true
  | nextItem => cases t with
    | closeBracket => exact .closeBracket (by simp) (by rwa [assemble_closeBracket (Or.inr rfl)] at h)
    | comma => exact .commaItem h
    | _ => exact absurd (congrArg Prod.snd h) Bool.false_ne_true
  | nextMember => cases t with
    | closeBrace => exact .closeBrace (by simp) (by rwa [assemble_closeBrace (Or.inr rfl)] at h)
    | comma => exact .commaMember h
    | _ => exact absurd (congrArg Prod.snd h) Bool.false_ne_true

variable {stack : List Open} {want : Want} {o : Open} {x : Doc}

theorem spent_cons (o : Open) (stack : List Open) : spent (o :: stack) = spent stack ++ o.spent := by
  simp [spent]

theorem spent_put (h : o.Awaits) (x : Doc) : (o.put x).spent = o.spent ++ x.lexemes ++ [.comma] := by
  cases o with
  | array items => simp [Open.put, Open.spent]
  | object members key =>
    obtain ⟨k, rfl⟩ := Option.isSome_iff_exists.mp h
    simp [Open.put, Open.spent]

theorem whole_put (ho : o.Whole) (h : o.Awaits) (hx : x.Whole) : (o.put x).Whole := by
  cases o with
  | array items => exact List.forall_mem_cons.mpr ⟨hx, ho⟩
  | object members key =>
    obtain ⟨k, rfl⟩ := Option.isSome_iff_exists.mp h
    exact ⟨List.forall_mem_cons.mpr ⟨⟨ho.2 k rfl, hx⟩, ho.1⟩, by simp⟩

theorem stands_put (h : o.Awaits) (hstack : ∀ p ∈ stack, p.Awaits) (x : Doc) :
    Stands .next (o.put x :: stack) := by
  cases o with
  | array items => exact .nextItem hstack
  | object members key =>
    obtain ⟨k, rfl⟩ := Option.isSome_iff_exists.mp h
    exact .nextMember hstack

theorem Stands.awaits (h : Stands want stack) (hwant : want = .value ∨ want = .firstItem) :
    ∀ o ∈ stack, o.Awaits := by
  cases h with
  | value h => exact h
  | firstItem h => exact List.forall_mem_cons.mpr ⟨trivial, h⟩
  | _ => simp at hwant

theorem Stands.below (h : Stands want (o :: stack)) : ∀ p ∈ stack, p.Awaits := by
  cases h with
  | value h => exact (List.forall_mem_cons.mp h).2
  | _ h => exact h

theorem soFar_put (h : o.Awaits) (x : Doc) (stack : List Open) :
    soFar (o.put x :: stack) .next = spent (o :: stack) ++ x.lexemes := by
  rw [soFar, spent_cons, spent_put h, ← List.append_assoc, List.dropLast_concat, spent_cons, List.append_assoc]

theorem Stands.soFar_closeBracket {items : List Doc} (h : Stands want (.array items :: stack))
    (hwant : want ≠ .value) :
    soFar (.array items :: stack) want ++ [.closeBracket] = spent stack ++ (Doc.array items.reverse true).lexemes := by
  cases h with
  | value => exact absurd rfl hwant
  | firstItem => simp [soFar, spent_cons, Open.spent, Doc.lexemes, Doc.itemLexemes, Doc.commas]
  | @nextItem d items =>
    have hread := soFar_put (o := .array items) trivial d stack
    rw [Open.put] at hread
    rw [hread, spent_cons, Doc.lexemes, Doc.itemLexemes_eq_map, List.map_reverse, List.map_cons, List.reverse_cons,
      Doc.commas_concat, Open.spent]
    simp

theorem Stands.soFar_closeBrace {members : List (Doc × Doc)} (h : Stands want (.object members none :: stack))
    (hwant : want ≠ .value ∧ want ≠ .key) :
    soFar (.object members none :: stack) want ++ [.closeBrace] =
      spent stack ++ (Doc.object members.reverse true).lexemes := by
  cases h with
  | value => exact absurd rfl hwant.1
  | key => exact absurd rfl hwant.2
  | firstKey => simp [soFar, spent_cons, Open.spent, Doc.lexemes, Doc.memberLexemes, Doc.commas]
  | @nextMember m members =>
    have hread := soFar_put (o := .object members (some m.1)) rfl m.2 stack
    rw [Open.put] at hread
    rw [hread, spent_cons, Doc.lexemes, Doc.memberLexemes_eq_map, List.map_reverse, List.map_cons,
      List.reverse_cons, Doc.commas_concat, Open.spent]
    simp

theorem whole_of_leaf? {t : Token} (h : t.leaf? = some x) : x.Whole := by
  cases t <;> cases h <;> constructor

theorem lexemes_of_leaf? {t : Token} (h : t.leaf? = some x) : x.lexemes = [t] := by
  cases t <;> cases h <;> rfl

theorem soFar_eq_spent (hcolon : want ≠ .colon) (hnext : want ≠ .next) : soFar stack want = spent stack := by
  cases want with
  | colon => exact absurd rfl hcolon
  | next => exact absurd rfl hnext
  | _ => rfl

theorem soFar_of_value (hwant : want = .value ∨ want = .firstItem) : soFar stack want = spent stack := by
  rcases hwant with rfl | rfl <;> rfl

theorem Stands.soFar_comma (h : Stands .next stack) : soFar stack .next ++ [.comma] = spent stack := by
  cases h with
  | @nextItem d items stack =>
    have hread := soFar_put (o := .array items) trivial d stack
    have hspent := spent_put (o := .array items) trivial d
    rw [Open.put] at hread hspent
    rw [hread, spent_cons, spent_cons, hspent, List.append_assoc, List.append_assoc, List.append_assoc]
  | @nextMember m members stack =>
    have hread := soFar_put (o := .object members (some m.1)) rfl m.2 stack
    have hspent := spent_put (o := .object members (some m.1)) rfl m.2
    rw [Open.put] at hread hspent
    rw [hread, spent_cons, spent_cons, hspent, List.append_assoc, List.append_assoc, List.append_assoc]

theorem spent_key (members : List (Doc × Doc)) (k : Doc) (stack : List Open) :
    spent (.object members (some k) :: stack) = spent (.object members none :: stack) ++ k.lexemes ++ [.colon] := by
  simp [spent_cons, Open.spent]

theorem lexemes_of_assemble {d : Doc} {ts : List Token} (hs : Stands want stack) (hw : ∀ o ∈ stack, o.Whole)
    (h : assemble ts stack want = (d, true)) : d.Whole ∧ d.lexemes = soFar stack want ++ ts := by
  induction ts generalizing stack want with
  | nil => exact absurd (congrArg Prod.snd h) Bool.false_ne_true
  | cons t ts ih =>
    have hafter : ∀ {x : Doc} {stack : List Open}, x.Whole → (∀ o ∈ stack, o.Awaits) → (∀ o ∈ stack, o.Whole) →
        after x ts stack = (d, true) → d.Whole ∧ d.lexemes = spent stack ++ x.lexemes ++ ts := by
      intro x stack hx hawaits hw h
      cases stack with
      | nil =>
        obtain ⟨rfl, hend⟩ := Prod.mk.inj h
        rw [List.isEmpty_iff.mp hend]
        exact ⟨hx, by simp [spent]⟩
      | cons o stack =>
        obtain ⟨ho, hawaits⟩ := List.forall_mem_cons.mp hawaits
        obtain ⟨hwo, hw⟩ := List.forall_mem_cons.mp hw
        obtain ⟨hd, hread⟩ := ih (stands_put ho hawaits x) (List.forall_mem_cons.mpr ⟨whole_put hwo ho hx, hw⟩) h
        refine ⟨hd, hread.trans ?_⟩
        rw [soFar_put ho]
    cases moves_of_assemble hs h with
    | leaf hwant ht hmore =>
      obtain ⟨hd, hread⟩ := hafter (whole_of_leaf? ht) (hs.awaits hwant) hw hmore
      refine ⟨hd, hread.trans ?_⟩
      rw [soFar_of_value hwant, lexemes_of_leaf? ht, List.append_assoc]
      rfl
    | openBracket hwant hmore =>
      have hopened : (Open.array []).Whole := by simp [Open.Whole]
      obtain ⟨hd, hread⟩ := ih (.firstItem (hs.awaits hwant)) (List.forall_mem_cons.mpr ⟨hopened, hw⟩) hmore
      refine ⟨hd, hread.trans ?_⟩
      rw [soFar_of_value hwant, soFar_eq_spent (by simp) (by simp), spent_cons, List.append_assoc]
      rfl
    | openBrace hwant hmore =>
      have hopened : (Open.object [] none).Whole := by simp [Open.Whole]
      obtain ⟨hd, hread⟩ := ih (.firstKey (hs.awaits hwant)) (List.forall_mem_cons.mpr ⟨hopened, hw⟩) hmore
      refine ⟨hd, hread.trans ?_⟩
      rw [soFar_of_value hwant, soFar_eq_spent (by simp) (by simp), spent_cons, List.append_assoc]
      rfl
    | @closeBracket _ items stack hwant hmore =>
      obtain ⟨hitems, hw⟩ := List.forall_mem_cons.mp hw
      obtain ⟨hd, hread⟩ := hafter (.array fun x hx => hitems x (List.mem_reverse.mp hx)) hs.below hw hmore
      refine ⟨hd, hread.trans ?_⟩
      rw [← hs.soFar_closeBracket hwant, List.append_assoc]
      rfl
    | @closeBrace _ members stack hwant hmore =>
      obtain ⟨hmembers, hw⟩ := List.forall_mem_cons.mp hw
      obtain ⟨hd, hread⟩ := hafter (.object (fun m hm => (hmembers.1 m (List.mem_reverse.mp hm)).1)
        fun m hm => (hmembers.1 m (List.mem_reverse.mp hm)).2) hs.below hw hmore
      refine ⟨hd, hread.trans ?_⟩
      rw [← hs.soFar_closeBrace hwant, List.append_assoc]
      rfl
    | @commaItem items stack hmore =>
      have hawaits : ∀ o ∈ Open.array items :: stack, o.Awaits := List.forall_mem_cons.mpr ⟨trivial, hs.below⟩
      obtain ⟨hd, hread⟩ := ih (.value hawaits) hw hmore
      refine ⟨hd, hread.trans ?_⟩
      rw [soFar_of_value (Or.inl rfl), ← hs.soFar_comma, List.append_assoc]
      rfl
    | commaMember hmore =>
      obtain ⟨hd, hread⟩ := ih (.key hs.below) hw hmore
      refine ⟨hd, hread.trans ?_⟩
      rw [soFar_eq_spent (by simp) (by simp), ← hs.soFar_comma, List.append_assoc]
      rfl
    | colon hmore =>
      cases hs with
      | @colon members k stack hbelow =>
        have hawaits : ∀ o ∈ Open.object members (some k) :: stack, o.Awaits :=
          List.forall_mem_cons.mpr ⟨rfl, hbelow⟩
        obtain ⟨hd, hread⟩ := ih (.value hawaits) hw hmore
        refine ⟨hd, hread.trans ?_⟩
        rw [soFar_of_value (Or.inl rfl), soFar, spent_key, List.dropLast_concat, List.append_assoc]
        rfl
    | @key _ s members stack hwant hmore =>
      obtain ⟨hmembers, hw⟩ := List.forall_mem_cons.mp hw
      have hkey : (Open.object members (some (.string s))).Whole :=
        ⟨hmembers.1, fun k hk => ⟨s, by simpa using hk.symm⟩⟩
      obtain ⟨hd, hread⟩ := ih (.colon hs.below) (List.forall_mem_cons.mpr ⟨hkey, hw⟩) hmore
      refine ⟨hd, hread.trans ?_⟩
      rw [soFar, spent_key, List.dropLast_concat, List.append_assoc]
      rcases hwant with rfl | rfl <;> rfl

end Spent

/-- A text is one document with nothing behind it just if it spells that document. -/
theorem document_eq_iff {d : Doc} {s : String} : document s = (d, true) ↔ d.Spells s := by
  refine ⟨fun h => ?_, document_of_spells⟩
  obtain ⟨hd, hread⟩ := lexemes_of_assemble (.value (by simp)) (by simp) h
  exact ⟨hd, by simpa [soFar, spent] using hread.symm⟩

end Json

end Rollout
