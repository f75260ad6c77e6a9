import WorkflowEngine.Lib.UrlReference

/-!
# The path to return to after sign-in

`isSafeReturnTo` and `sanitizeReturnTo` of `state-cookie.ts`. The sanitized text ends
in a `Location` header, where the browser reads it as a URL reference against the
page it asked for.
-/

namespace WorkflowEngine.Runtime.Auth

open Lib
set_option autoImplicit false

def isSafeReturnTo (value : String) : Bool :=
  let cs := value.toList
  if value = "" || ! ['/'].isPrefixOf cs || ['/', '/'].isPrefixOf cs then false
  else if cs.contains '\\' then false
  else
    let stop := min (cs.idxOf '?') (cs.idxOf '#')
    !(cs.take stop).contains ':'

def sanitizeReturnTo : Option String → String
  | none => "/"
  | some value => if isSafeReturnTo value then value else "/"

/-- What a safe text looks like. -/
theorem isSafeReturnTo_eq_true_iff {value : String} :
    isSafeReturnTo value = true ↔ ∃ rest, value.toList = '/' :: rest ∧ rest.head? ≠ some '/' ∧ '\\' ∉ rest ∧
      ':' ∉ ('/' :: rest).take (min (('/' :: rest).idxOf '?') (('/' :: rest).idxOf '#')) := by
  unfold isSafeReturnTo
  cases hcs : value.toList with
  | nil => simp
  | cons c rest =>
    have hne : value ≠ "" := by
      rintro rfl
      cases hcs
    by_cases hc : c = '/'
    · subst hc
      cases rest with
      | nil => simp [hne]
      | cons d rest =>
        by_cases hd : d = '/'
        · simp [hd]
        · by_cases hback : '\\' ∈ d :: rest
          · simp [hback]
          · simp only [List.isPrefixOf_cons_cons, List.isPrefixOf_nil_left, Bool.and_true]
            simp [hne, hd, hback, Ne.symm hd]
    · simp [hc, Ne.symm hc]

/-- The sanitized text leads back to the page's own host, unless tabs or newlines hid a second slash. -/
theorem sanitizeReturnTo_leaves_iff (baseScheme : List Char) (value : Option String) :
    UrlReference.resolve baseScheme (sanitizeReturnTo value).toList ≠ .base ↔
      ∃ text blanks after, value = some text ∧ isSafeReturnTo text = true ∧
        text.toList = '/' :: (blanks ++ '/' :: after) ∧ blanks ≠ [] ∧
        blanks.all UrlReference.isTabOrNewline = true := by
  have hroot : UrlReference.resolve baseScheme "/".toList = .base := rfl
  constructor
  · intro h
    cases value with
    | none => exact absurd hroot h
    | some text =>
      by_cases hsafe : isSafeReturnTo text = true
      · simp only [sanitizeReturnTo, hsafe, if_true] at h
        obtain ⟨rest, htext, hhead, hback, -⟩ := isSafeReturnTo_eq_true_iff.mp hsafe
        rw [htext] at h
        obtain ⟨blanks, c, after, rfl, hblanks, hc⟩ := UrlReference.resolve_slash_ne_base.mp h
        have hslash : c = '/' := by
          simp only [UrlReference.isSlash, Bool.or_eq_true, beq_iff_eq] at hc
          rcases hc with rfl | rfl
          · rfl
          · exact absurd (by simp) hback
        subst hslash
        refine ⟨text, blanks, after, rfl, hsafe, htext, ?_, hblanks⟩
        rintro rfl
        exact hhead rfl
      · simp only [sanitizeReturnTo, hsafe] at h
        exact absurd hroot h
  · rintro ⟨text, blanks, after, rfl, hsafe, htext, -, hblanks⟩
    rw [sanitizeReturnTo, if_pos hsafe, htext]
    exact UrlReference.resolve_slash_ne_base.mpr ⟨blanks, '/', after, rfl, hblanks, rfl⟩

end WorkflowEngine.Runtime.Auth
