import Rollout.Json.Printer
import Rollout.Proofs.DecimalDigits
import Rollout.Proofs.Lexemes
import Mathlib.Data.List.TakeWhile

/-! Texts of JSON values. The text of a value is cut into the tokens that the value consists of, and these are
put together to the document of the value again. -/

namespace Rollout.Json

open Decimal

/-- Integers that are written as they are kept. -/
def Number.Exact : Number → Prop
  | .whole _ => True
  | .negative n => n < 0
  | .float _ => False

mutual

/-- All numbers in a value are integers. -/
def Exact : Json → Prop
  | null | bool _ | string _ => True
  | number n => n.Exact
  | array items => ItemsExact items
  | object members => MembersExact members

def ItemsExact : List Json → Prop
  | [] => True
  | v :: rest => Exact v ∧ ItemsExact rest

def MembersExact : List (String × Json) → Prop
  | [] => True
  | (_, v) :: rest => Exact v ∧ MembersExact rest

end

mutual

theorem whole_ofJson : ∀ v : Json, (Doc.ofJson v).Whole
  | null => .null
  | bool b => .bool b
  | number n => .number (some n)
  | string s => .string (some s)
  | array items => .array (whole_ofItems items)
  | object members =>
    .object (fun m hm => (whole_ofMembers members m hm).1) fun m hm => (whole_ofMembers members m hm).2

theorem whole_ofItems : ∀ items : List Json, ∀ d ∈ Doc.ofItems items, d.Whole
  | [] => fun d hd => by cases hd
  | v :: rest => List.forall_mem_cons.mpr ⟨whole_ofJson v, whole_ofItems rest⟩

theorem whole_ofMembers : ∀ members : List (String × Json), ∀ m ∈ Doc.ofMembers members,
    (∃ s, m.1 = .string s) ∧ m.2.Whole
  | [] => fun m hm => by cases hm
  | (k, v) :: rest => List.forall_mem_cons.mpr ⟨⟨⟨some k, rfl⟩, whole_ofJson v⟩, whole_ofMembers rest⟩

end

/-! From characters to tokens -/

/-- Characters before which a number and a word end. -/
def Apart (rest : List Char) : Prop := ∀ c ∈ rest.head?, isNumeral c = false ∧ isLetter c = false

section Tokens

variable {w cs rest : List Char}

theorem apart_cons {c : Char} (hnumeral : isNumeral c = false) (hletter : isLetter c = false) :
    Apart (c :: rest) := by
  intro d hd
  rw [← Option.some.inj hd]
  exact ⟨hnumeral, hletter⟩

theorem tokens_colon (rest : List Char) : tokens .between (':' :: rest) = .colon :: tokens .between rest :=
  rfl

theorem tokens_word (cs : List Char) (hcs : ∀ c ∈ cs, isLetter c = true) (hrest : Apart rest) :
    tokens (.word w) (cs ++ rest) = wordTokens (w.reverse ++ cs) ++ tokens .between rest := by
  induction cs generalizing w with
  | nil =>
    cases rest with
    | nil => simp [tokens]
    | cons c rest => simp [tokens, (hrest c rfl).2]
  | cons c cs ih =>
    obtain ⟨hc, hmore⟩ := List.forall_mem_cons.mp hcs
    rw [List.cons_append, tokens, if_pos hc, ih hmore, List.reverse_cons, List.append_assoc]
    rfl

theorem tokens_numeral (hcs : ∀ c ∈ cs, isNumeral c = true) (hrest : Apart rest) :
    tokens (.number w) (cs ++ rest) = numberTokens (w.reverse ++ cs) ++ tokens .between rest := by
  induction cs generalizing w with
  | nil =>
    cases rest with
    | nil => simp [tokens]
    | cons c rest => simp [tokens, (hrest c rfl).1]
  | cons c cs ih =>
    obtain ⟨hc, hmore⟩ := List.forall_mem_cons.mp hcs
    rw [List.cons_append, tokens, if_pos hc, ih hmore, List.reverse_cons, List.append_assoc]
    rfl

theorem hexValue?_hexDigit : ∀ n < 16, hexValue? (hexDigit n) = some n := by decide

theorem escape_of_control {c : Char} (hc : c.toNat < 32) (read : List Char) :
    tokens (.escape ⟨some read, none⟩)
        ('u' :: '0' :: '0' :: hexDigit (c.toNat / 16) :: hexDigit (c.toNat % 16) :: rest) =
      tokens (.quote ⟨some (c :: read), none⟩) rest := by
  have hhigh := hexValue?_hexDigit (c.toNat / 16) (by omega)
  have hlow := hexValue?_hexDigit (c.toNat % 16) (by omega)
  have hzero : hexValue? '0' = some 0 := rfl
  have hvalue := Nat.div_add_mod c.toNat 16
  have hunit : Quote.pushUnit ⟨some read, none⟩ c.toNat = ⟨some (c :: read), none⟩ := by
    have hhalf : ¬ (0xD800 ≤ c.toNat ∧ c.toNat < 0xDC00) := by omega
    have hother : ¬ (0xDC00 ≤ c.toNat ∧ c.toNat < 0xE000) := by omega
    simp [Quote.pushUnit, Quote.push, hhalf, hother, Char.ofNat_toNat]
  simp [tokens, hzero, hhigh, hlow, hvalue, hunit]

/-- Whatever stands for a character in a string is read as this character. -/
theorem tokens_escape (c : Char) (read : List Char) :
    tokens (.quote ⟨some read, none⟩) (escape c ++ rest) = tokens (.quote ⟨some (c :: read), none⟩) rest := by
  unfold escape
  split
  · rfl
  · rfl
  · rfl
  · rfl
  · rfl
  · rfl
  · rfl
  · next hquote hslash _ _ _ _ _ =>
    split
    · next hc => exact escape_of_control hc read
    · next hc =>
      have hquote : c ≠ '"' := hquote
      have hslash : c ≠ '\\' := hslash
      simp [tokens, hquote, hslash, hc, Quote.push]

theorem tokens_flatMap_escape (cs read rest : List Char) :
    tokens (.quote ⟨some read, none⟩) (cs.flatMap escape ++ '"' :: rest) =
      .string (some (String.ofList (read.reverse ++ cs))) :: tokens .between rest := by
  induction cs generalizing read with
  | nil => simp [tokens, Quote.close]
  | cons c cs ih =>
    rw [List.flatMap_cons, List.append_assoc, tokens_escape, ih, List.reverse_cons, List.append_assoc]
    rfl

theorem tokens_quoted (s : String) :
    tokens .between (quoted s ++ rest) = .string (some s) :: tokens .between rest := by
  have hread := tokens_flatMap_escape s.toList [] rest
  rw [List.reverse_nil, List.nil_append, String.ofList_toList] at hread
  rw [quoted, List.cons_append, List.append_assoc]
  exact hread

end Tokens

section Numbers

variable {d : Char} {ds : List Char}

/-- Digits that are a number as a whole: a zero begins no other number than zero. -/
theorem toDigits_eq_cons (n : Nat) :
    ∃ d ds, Nat.toDigits 10 n = d :: ds ∧ (∀ c ∈ d :: ds, isDigit c = true) ∧ (d = '0' → ds = []) := by
  obtain ⟨d, ds, hd⟩ := List.exists_cons_of_ne_nil (Nat.toDigits_ne_nil (n := n) (b := 10))
  refine ⟨d, ds, hd, fun c hc => isDigit_of_mem_toDigits (hd ▸ hc), fun hzero => ?_⟩
  have hn : n = 0 := eq_zero_of_head?_toDigits (by rw [hd, hzero, List.head?_cons])
  rw [hn] at hd
  exact (List.cons.inj hd).2.symm

theorem parts?_digits (hds : ∀ c ∈ d :: ds, isDigit c = true) (hzero : d = '0' → ds = []) :
    Number.parts? (d :: ds) = some (⟨false, d :: ds, none, none⟩, []) := by
  have htake := List.takeWhile_eq_self_iff.mpr hds
  have hdrop := List.dropWhile_eq_nil_iff.mpr hds
  have hminus : d ≠ '-' := by
    rintro rfl
    exact absurd (hds '-' List.mem_cons_self) (by decide)
  simpa [Number.parts?, hminus, htake, hdrop, Number.exponent?] using hzero

theorem parts?_minus_digits (hds : ∀ c ∈ d :: ds, isDigit c = true) (hzero : d = '0' → ds = []) :
    Number.parts? ('-' :: d :: ds) = some (⟨true, d :: ds, none, none⟩, []) := by
  have htake := List.takeWhile_eq_self_iff.mpr hds
  have hdrop := List.dropWhile_eq_nil_iff.mpr hds
  simpa [Number.parts?, htake, hdrop, Number.exponent?] using hzero

theorem numberTokens_chars {n : Number} (h : n.Exact) : numberTokens n.chars = [.number (some n)] := by
  cases n with
  | whole n =>
    obtain ⟨d, ds, hd, hds, hzero⟩ := toDigits_eq_cons n.toNat
    have hn : ofDigits (d :: ds) = n.toNat := hd ▸ ofDigits_toDigits n.toNat
    have hle : n.toNat ≤ maxWord := Nat.le_pred_of_lt n.toNat_lt
    rw [Number.chars, hd, numberTokens, parts?_digits hds hzero]
    simp [ends, Number.Parts.value, hn, hle]
  | negative n =>
    obtain ⟨d, ds, hd, hds, hzero⟩ := toDigits_eq_cons n.toInt.natAbs
    have hn : ofDigits (d :: ds) = n.toInt.natAbs := hd ▸ ofDigits_toDigits _
    have hneg : n.toInt < 0 := Int64.lt_iff_toInt_lt.mp h
    have hlow := n.le_toInt
    have hrange : (decide (0 < n.toInt.natAbs) && decide (n.toInt.natAbs ≤ Nat.pow 2 63)) = true := by
      have hbound : Nat.pow 2 63 = 9223372036854775808 := rfl
      rw [Bool.and_eq_true_iff, decide_eq_true_iff, decide_eq_true_iff, hbound]
      omega
    have hint : -(n.toInt.natAbs : Int) = n.toInt := by omega
    rw [Number.chars, hd, numberTokens, parts?_minus_digits hds hzero]
    simp only [ends, Number.Parts.value, hn, Bool.not_true, Bool.false_and, Bool.false_eq_true, if_false,
      Bool.true_and, hrange, if_true, hint, Int64.ofInt_toInt, List.isEmpty_nil]
  | float x => exact h.elim

theorem chars_eq_cons {n : Number} (h : n.Exact) : ∃ c cs, n.chars = c :: cs ∧
    (isDigit c = true ∨ c = '-') ∧ ∀ c ∈ cs, isNumeral c = true := by
  have hnumeral : ∀ {c}, isDigit c = true → isNumeral c = true := fun hc => by simp [isNumeral, hc]
  cases n with
  | whole n =>
    obtain ⟨d, ds, hd, hds, -⟩ := toDigits_eq_cons n.toNat
    obtain ⟨hfirst, hmore⟩ := List.forall_mem_cons.mp hds
    exact ⟨d, ds, hd, Or.inl hfirst, fun c hc => hnumeral (hmore c hc)⟩
  | negative n =>
    exact ⟨'-', _, rfl, Or.inr rfl, fun c hc => hnumeral (isDigit_of_mem_toDigits hc)⟩
  | float x => exact h.elim

theorem opening_number {c : Char} (hc : isDigit c = true ∨ c = '-') : opening c = ([], .number [c]) := by
  have hblank : isBlank c = false := by
    rw [Bool.eq_false_iff]
    intro hblank
    simp only [isBlank, Bool.or_eq_true, decide_eq_true_iff] at hblank
    rcases hblank with ((rfl | rfl) | rfl) | rfl <;> exact absurd hc (by decide)
  unfold opening
  split
  -- no digit stands alone as a token, nor does the minus sign
  iterate 7 exact absurd hc (by decide)
  rw [if_neg (by simp [hblank]), if_pos (by simpa using hc)]

theorem tokens_number {n : Number} (h : n.Exact) {rest : List Char} (hrest : Apart rest) :
    tokens .between (n.chars ++ rest) = .number (some n) :: tokens .between rest := by
  obtain ⟨c, cs, hchars, hfirst, hmore⟩ := chars_eq_cons h
  have hread := tokens_numeral (w := [c]) hmore hrest
  rw [List.reverse_singleton, List.singleton_append, ← hchars, numberTokens_chars h] at hread
  rw [hchars, List.cons_append, tokens, opening_number hfirst]
  exact hread

end Numbers

-- A comma or a closing sign follows each item and member, so a number or a word ends there.
mutual

theorem tokens_chars : ∀ {v : Json} {rest : List Char}, v.Exact → Apart rest →
    tokens .between (v.chars ++ rest) = (Doc.ofJson v).lexemes ++ tokens .between rest
  | null, rest, _, hrest => tokens_word (w := ['n']) ['u', 'l', 'l'] (List.all_eq_true.mp rfl) hrest
  | bool true, rest, _, hrest => tokens_word (w := ['t']) ['r', 'u', 'e'] (List.all_eq_true.mp rfl) hrest
  | bool false, rest, _, hrest => tokens_word (w := ['f']) ['a', 'l', 's', 'e'] (List.all_eq_true.mp rfl) hrest
  | number n, rest, h, hrest => tokens_number h hrest
  | string s, rest, _, _ => tokens_quoted s
  | array items, rest, h, hrest => by
    rw [chars, Doc.ofJson, Doc.lexemes, List.cons_append, List.cons_append, List.append_assoc,
      List.singleton_append, ← tokens_itemChars h]
    rfl
  | object members, rest, h, hrest => by
    rw [chars, Doc.ofJson, Doc.lexemes, List.cons_append, List.cons_append, List.append_assoc,
      List.singleton_append, ← tokens_memberChars h]
    rfl

theorem tokens_itemChars : ∀ {items : List Json} {rest : List Char}, ItemsExact items →
    tokens .between (itemChars items ++ rest) =
      Doc.commas (Doc.itemLexemes (Doc.ofItems items)) ++ .closeBracket :: tokens .between rest
  | [], rest, _ => rfl
  | [v], rest, h => by
    rw [itemChars, List.append_assoc, List.singleton_append, tokens_chars h.1 (apart_cons rfl rfl)]
    simp only [Doc.ofItems, Doc.itemLexemes, Doc.commas, List.flatMap_nil, List.append_nil]
    rfl
  | v :: w :: more, rest, h => by
    rw [itemChars, List.append_assoc, List.cons_append, tokens_chars h.1 (apart_cons rfl rfl), Doc.ofItems,
      Doc.itemLexemes, Doc.ofItems, Doc.itemLexemes, Doc.commas_cons_cons, List.append_assoc, List.cons_append,
      ← Doc.itemLexemes, ← Doc.ofItems, ← tokens_itemChars h.2]
    rfl

theorem tokens_memberChars : ∀ {members : List (String × Json)} {rest : List Char}, MembersExact members →
    tokens .between (memberChars members ++ rest) =
      Doc.commas (Doc.memberLexemes (Doc.ofMembers members)) ++ .closeBrace :: tokens .between rest
  | [], rest, _ => rfl
  | [(k, v)], rest, h => by
    rw [memberChars, List.append_assoc, tokens_quoted, List.cons_append, List.append_assoc, tokens_colon,
      List.singleton_append, tokens_chars h.1 (apart_cons rfl rfl)]
    simp only [Doc.ofMembers, Doc.memberLexemes, Doc.commas, List.flatMap_nil, List.append_nil]
    rfl
  | (k, v) :: m :: more, rest, h => by
    obtain ⟨k', v'⟩ := m
    rw [memberChars, List.append_assoc, tokens_quoted, List.cons_append, List.append_assoc, tokens_colon,
      List.cons_append, tokens_chars h.1 (apart_cons rfl rfl), Doc.ofMembers, Doc.memberLexemes, Doc.ofMembers,
      Doc.memberLexemes, Doc.commas_cons_cons, List.append_assoc, List.append_assoc, List.cons_append,
      List.cons_append, ← Doc.memberLexemes, ← Doc.ofMembers, ← tokens_memberChars h.2]
    rfl

end

/-- The text of a value spells its document. -/
theorem spells_render {v : Json} (h : v.Exact) : (Doc.ofJson v).Spells v.render := by
  have hread : tokens .between (v.chars ++ []) = (Doc.ofJson v).lexemes ++ tokens .between [] :=
    tokens_chars h fun c hc => by cases hc
  rw [List.append_nil] at hread
  refine ⟨whole_ofJson v, ?_⟩
  rw [tokenize, render, String.toList_ofList, hread]
  exact List.append_nil _

end Rollout.Json
