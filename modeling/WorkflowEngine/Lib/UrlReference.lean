import Mathlib.Data.List.DropRight
import Mathlib.Data.List.Infix

/-!
# Where a URL reference leads

The start of the URL standard's parser on a reference and a base of a special
scheme, up to the point where it knows whose host the result has: the base's, or
one that the reference names itself.
-/

namespace WorkflowEngine.Lib.UrlReference

set_option autoImplicit false

def isC0ControlOrSpace (c : Char) : Bool := c.toNat ≤ 0x20

def isTabOrNewline (c : Char) : Bool := c == '\t' || c == '\n' || c == '\r'

/-- What the parser removes before it reads. -/
def clean (input : List Char) : List Char :=
  ((input.dropWhile isC0ControlOrSpace).rdropWhile isC0ControlOrSpace).filter (!isTabOrNewline ·)

/-- The scheme start state and the scheme state: a scheme and what follows its colon. -/
def scheme? (text : List Char) : Option (List Char × List Char) :=
  match text with
  | [] => none
  | c :: cs =>
    if c.isAlpha then
      match cs.dropWhile isSchemeChar with
      | ':' :: rest => some ((c :: cs.takeWhile isSchemeChar).map Char.toLower, rest)
      | _ => none
    else none
where
  isSchemeChar (c : Char) : Bool := c.isAlphanum || c == '+' || c == '-' || c == '.'

/-- In a special scheme a backslash separates as a slash does. -/
def isSlash (c : Char) : Bool := c == '/' || c == '\\'

inductive Target where
  /-- Scheme and host are those of the base. -/
  | base
  /-- The reference goes on with a host of its own. -/
  | authority (rest : List Char)
  | scheme (name : List Char)
  deriving DecidableEq

/-- The relative state and the relative slash state. -/
def relative : List Char → Target
  | a :: b :: rest => if isSlash a && isSlash b then .authority (rest.dropWhile isSlash) else .base
  | _ => .base

/-- `resolve baseScheme input` for a base whose scheme is special and not `file`. -/
def resolve (baseScheme : List Char) (input : List Char) : Target :=
  match scheme? (clean input) with
  | none => relative (clean input)
  | some (scheme, rest) =>
    if scheme = baseScheme then
      match rest with
      | '/' :: '/' :: authority => .authority (authority.dropWhile isSlash)
      | _ => relative rest
    else .scheme scheme

/-- Trimming at the end stops at an element that stays. -/
theorem rdropWhile_append_cons {α : Type*} {p : α → Bool} {c : α} (hc : p c = false) (xs ys : List α) :
    (xs ++ c :: ys).rdropWhile p = xs ++ c :: ys.rdropWhile p := by
  induction ys using List.reverseRecOn with
  | nil => rw [List.rdropWhile_concat_neg _ _ _ (by simp [hc]), List.rdropWhile_nil]
  | append_singleton ys y ih =>
    have hassoc : xs ++ c :: (ys ++ [y]) = (xs ++ c :: ys) ++ [y] := by simp
    rw [hassoc]
    by_cases hy : p y = true
    · rw [List.rdropWhile_concat_pos _ _ _ hy, List.rdropWhile_concat_pos _ _ _ hy, ih]
    · rw [List.rdropWhile_concat_neg _ _ _ hy, List.rdropWhile_concat_neg _ _ _ hy, hassoc]

theorem clean_cons {c : Char} {cs : List Char} (h : isC0ControlOrSpace c = false) :
    clean (c :: cs) = c :: (cs.rdropWhile isC0ControlOrSpace).filter (!isTabOrNewline ·) := by
  have htab : isTabOrNewline c = false := by
    simp only [isC0ControlOrSpace, decide_eq_false_iff_not] at h
    simp only [isTabOrNewline, Bool.or_eq_false_iff, beq_eq_false_iff_ne]
    refine ⟨⟨?_, ?_⟩, ?_⟩
    · rintro rfl
      exact h (by decide)
    · rintro rfl
      exact h (by decide)
    · rintro rfl
      exact h (by decide)
  have hdrop : (c :: cs).rdropWhile isC0ControlOrSpace = c :: cs.rdropWhile isC0ControlOrSpace :=
    rdropWhile_append_cons h [] cs
  rw [clean, List.dropWhile_cons_of_neg (by simp [h]), hdrop, List.filter_cons_of_pos (by simp [htab])]

/-- A reference that starts with a slash leads away exactly when only tabs and newlines, which the parser
removes, stand between the slash and a second one. -/
theorem resolve_slash_ne_base {baseScheme rest : List Char} :
    resolve baseScheme ('/' :: rest) ≠ .base ↔
      ∃ blanks c after, rest = blanks ++ c :: after ∧ blanks.all isTabOrNewline = true ∧ isSlash c = true := by
  have hclean : clean ('/' :: rest) = '/' :: (rest.rdropWhile isC0ControlOrSpace).filter (!isTabOrNewline ·) :=
    clean_cons (by decide)
  have hscheme : scheme? (clean ('/' :: rest)) = none := by
    rw [hclean]
    rfl
  have hres : resolve baseScheme ('/' :: rest) = relative (clean ('/' :: rest)) := by
    rw [resolve, hscheme]
  rw [hres, hclean]
  constructor
  · intro h
    cases hkept : (rest.rdropWhile isC0ControlOrSpace).filter (!isTabOrNewline ·) with
    | nil =>
      rw [hkept] at h
      exact absurd rfl h
    | cons c kept =>
      rw [hkept] at h
      obtain ⟨blanks, after, hrest, hblanks, -⟩ := List.filter_eq_cons_iff.mp hkept
      have hslash : isSlash c = true := by
        rw [← Bool.not_eq_false]
        intro hc
        apply h
        simp [relative, hc]
      obtain ⟨tail, htail⟩ := List.rdropWhile_prefix isC0ControlOrSpace (l := rest)
      refine ⟨blanks, c, after ++ tail, ?_, ?_, hslash⟩
      · rw [← htail, hrest]
        simp
      · rw [List.all_eq_true]
        intro b hb
        simpa using hblanks b hb
  · rintro ⟨blanks, c, after, rfl, hblanks, hc⟩
    have hcontrol : isC0ControlOrSpace c = false := by
      simp only [isSlash, Bool.or_eq_true, beq_iff_eq] at hc
      rcases hc with rfl | rfl
      · decide
      · decide
    have htab : isTabOrNewline c = false := by
      simp only [isSlash, Bool.or_eq_true, beq_iff_eq] at hc
      rcases hc with rfl | rfl
      · decide
      · decide
    have hdrop : (blanks ++ c :: after).rdropWhile isC0ControlOrSpace =
        blanks ++ c :: after.rdropWhile isC0ControlOrSpace :=
      rdropWhile_append_cons hcontrol blanks after
    have hnone : blanks.filter (!isTabOrNewline ·) = [] := by
      rw [List.filter_eq_nil_iff]
      intro b hb
      simpa using List.all_eq_true.mp hblanks b hb
    rw [hdrop, List.filter_append, hnone, List.nil_append, List.filter_cons_of_pos (by simp [htab])]
    have hfirst : isSlash '/' = true := rfl
    simp [relative, hc, hfirst]

end WorkflowEngine.Lib.UrlReference
