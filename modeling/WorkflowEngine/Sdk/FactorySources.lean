import WorkflowEngine.Sdk.FactoryTransforms
import Mathlib.Data.List.Forall2

/-!
# Sources that the factory transforms get right

What each rewriting does to the properties, the commas and the calls of a source, and for which sources the three
passes in turn give a source that parses and has exactly the expected properties.
-/

namespace WorkflowEngine.Sdk

open Lib
set_option autoImplicit false

/-! ## What the rewritings leave -/

namespace ObjectLiteral

def TrailingComma (l : ObjectLiteral) : Prop := ∃ t, l.rest.getLast? = some (.hole t)

/-- The last property is a Zod property, and a comment stands between it and a trailing comma. -/
def CommentedComma : Slot → List Slot → Prop
  | .filled _ p a, [.hole _] => isZodProperty p.member = true ∧ a.all Trivium.isSpace = false
  | _, [] => False
  | _, s :: rest => CommentedComma s rest

theorem properties_addName (id : String) (l : ObjectLiteral) :
    (l.addName id).properties = l.properties ++ [nameProperty id] := by
  obtain ⟨first, rest⟩ := l
  cases first with
  | hole t =>
    cases rest with
    | nil => rfl
    | cons s rest => exact List.filterMap_append (l := .hole t :: s :: rest)
  | filled b p a => exact List.filterMap_append (l := .filled b p a :: rest)

theorem filterMap_stripFrom (b : Trivia) (p : Property) (a : Trivia) (rest : List Slot)
    (h : Separated (.filled b p a) rest) :
    (stripFrom b p a rest).properties =
      ((p :: rest.filterMap Slot.property?).filter fun p => !isZodProperty p.member) := by
  induction rest generalizing b p a with
  | nil => cases hzod : isZodProperty p.member <;> simp [stripFrom, hzod, properties, slots]
  | cons s rest ih =>
    cases s with
    | hole t =>
      cases rest with
      | cons s rest => exact False.elim h
      | nil =>
        cases hzod : isZodProperty p.member with
        | false => simp [stripFrom, hzod, properties, slots]
        | true => cases hall : a.all Trivium.isSpace <;> simp [stripFrom, hzod, hall, properties, slots]
    | filled b' p' a' =>
      cases hzod : isZodProperty p.member with
      | true =>
        simp only [stripFrom, hzod, if_true]
        rw [ih b p' a' (separated_filled.mp h)]
        simp [hzod]
      | false =>
        have hih := ih b' p' a' h
        simp only [stripFrom, hzod, Bool.false_eq_true, if_false]
        simp only [properties, slots, filterMap_filled] at hih ⊢
        rw [hih]
        simp [hzod]

theorem properties_strip {l : ObjectLiteral} (h : Separated l.first l.rest) :
    l.strip.properties = l.properties.filter fun p => !isZodProperty p.member := by
  obtain ⟨first, rest⟩ := l
  cases first with
  | hole t =>
    cases rest with
    | nil => rfl
    | cons s rest => exact False.elim h
  | filled b p a => exact filterMap_stripFrom b p a rest h

theorem separated_append (first : Slot) (rest : List Slot) (s : Slot) :
    Separated first (rest ++ [s]) ↔ Separated first rest ∧ ∀ t, (first :: rest).getLast? ≠ some (.hole t) := by
  induction rest generalizing first with
  | nil =>
    cases first with
    | hole t => simp [Separated]
    | filled b p a => simp [Separated]
  | cons s' rest ih =>
    cases first with
    | hole t => simp [Separated]
    | filled b p a =>
      rw [List.cons_append, List.getLast?_cons_cons]
      exact ih s'

/-- After a trailing comma the injected property stands behind a hole. -/
theorem separated_addName (id : String) {l : ObjectLiteral} (h : Separated l.first l.rest) :
    Separated (l.addName id).first (l.addName id).rest ↔ ¬ l.TrailingComma := by
  obtain ⟨first, rest⟩ := l
  cases first with
  | hole t =>
    cases rest with
    | nil => simp [addName, Separated, TrailingComma]
    | cons s rest => exact False.elim h
  | filled b p a =>
    have happend := separated_append (.filled b p a) rest (.filled [.space ' '] (nameProperty id) [])
    refine happend.trans ⟨?_, ?_⟩
    · rintro ⟨-, hlast⟩ ⟨t, ht⟩
      cases rest with
      | nil => cases ht
      | cons s rest => exact hlast t (by rwa [List.getLast?_cons_cons])
    · intro hno
      refine ⟨h, ?_⟩
      intro t ht
      cases rest with
      | nil => cases ht
      | cons s rest =>
        rw [List.getLast?_cons_cons] at ht
        exact hno ⟨t, ht⟩

theorem commentedComma_filled (s : Slot) (b : Trivia) (p : Property) (a : Trivia) (rest : List Slot) :
    CommentedComma s (.filled b p a :: rest) ↔ CommentedComma (.filled b p a) rest := by
  cases s <;> exact Iff.rfl

theorem commentedComma_congr {b b' : Trivia} (p : Property) (a : Trivia) (rest : List Slot) :
    CommentedComma (.filled b p a) rest ↔ CommentedComma (.filled b' p a) rest := by
  cases rest with
  | nil => exact Iff.rfl
  | cons s rest =>
    cases s with
    | hole t => cases rest <;> exact Iff.rfl
    | filled b'' p'' a'' => exact Iff.rfl

theorem separated_stripFrom (b : Trivia) (p : Property) (a : Trivia) (rest : List Slot)
    (h : Separated (.filled b p a) rest) :
    Separated (stripFrom b p a rest).first (stripFrom b p a rest).rest ↔ ¬ CommentedComma (.filled b p a) rest := by
  induction rest generalizing b p a with
  | nil => cases hzod : isZodProperty p.member <;> simp [stripFrom, hzod, Separated, CommentedComma]
  | cons s rest ih =>
    cases s with
    | hole t =>
      cases rest with
      | cons s rest => exact False.elim h
      | nil =>
        cases hzod : isZodProperty p.member with
        | false => simp [stripFrom, hzod, Separated, CommentedComma]
        | true =>
          cases hall : a.all Trivium.isSpace <;>
            simp only [stripFrom, hzod, hall, Separated, CommentedComma, if_true, if_false, Bool.false_eq_true,
              and_self, not_true_eq_false, and_false, not_false_eq_true, Bool.true_eq_false]
    | filled b' p' a' =>
      rw [commentedComma_filled]
      cases hzod : isZodProperty p.member with
      | true =>
        simp only [stripFrom, hzod, if_true]
        exact (ih b p' a' (separated_filled.mp h)).trans (not_congr (commentedComma_congr p' a' rest))
      | false =>
        simp only [stripFrom, hzod, Bool.false_eq_true, if_false]
        exact ih b' p' a' h

theorem separated_strip {l : ObjectLiteral} (h : Separated l.first l.rest) :
    Separated l.strip.first l.strip.rest ↔ ¬ CommentedComma l.first l.rest := by
  obtain ⟨first, rest⟩ := l
  cases first with
  | hole t =>
    cases rest with
    | nil => simp [strip, Separated, CommentedComma]
    | cons s rest => exact False.elim h
  | filled b p a => exact separated_stripFrom b p a rest h

theorem not_commentedComma_append {s : Slot} {b : Trivia} {p : Property} {a : Trivia} (rest : List Slot) :
    ¬ CommentedComma s (rest ++ [.filled b p a]) := by
  induction rest generalizing s with
  | nil =>
    rw [List.nil_append, commentedComma_filled]
    exact id
  | cons s' rest ih =>
    have hstep : CommentedComma s (s' :: (rest ++ [.filled b p a])) → CommentedComma s' (rest ++ [.filled b p a]) := by
      cases s with
      | hole t => exact id
      | filled b' p' a' =>
        cases s' with
        | filled b'' p'' a'' => exact id
        | hole t =>
          cases rest with
          | nil => exact id
          | cons s'' rest => exact id
    exact fun h => ih (hstep h)

theorem not_commentedComma_addName (id : String) (l : ObjectLiteral) :
    ¬ CommentedComma (l.addName id).first (l.addName id).rest := by
  obtain ⟨first, rest⟩ := l
  cases first with
  | hole t =>
    cases rest with
    | nil => exact fun h => h
    | cons s rest => exact not_commentedComma_append (s :: rest)
  | filled b p a => exact not_commentedComma_append rest

section Lexical
variable {t : Tokens} {l : ObjectLiteral}

theorem lexical_addName {id : String} (hname : t.IsProperty (nameProperty id))
    (h : ∀ slot ∈ l.slots, slot.Lexical t) : ∀ slot ∈ (l.addName id).slots, slot.Lexical t := by
  obtain ⟨first, rest⟩ := l
  have hnew : (Slot.filled [.space ' '] (nameProperty id) []).Lexical t := by
    refine ⟨?_, hname, nofun⟩
    intro x hx
    rw [List.mem_singleton.mp hx]
    exact (by decide : Runtime.Imap.isWhitespace ' ' = true)
  have happend : ∀ slot ∈ first :: rest ++ [.filled [.space ' '] (nameProperty id) []], slot.Lexical t := by
    intro slot hslot
    rcases List.mem_append.mp hslot with hslot | hslot
    · exact h slot hslot
    · rw [List.mem_singleton.mp hslot]
      exact hnew
  cases first with
  | filled b p a => exact happend
  | hole trivia =>
    cases rest with
    | cons s rest => exact happend
    | nil =>
      intro slot hslot
      rw [List.mem_singleton.mp hslot]
      exact ⟨h _ List.mem_cons_self, hname, nofun⟩

theorem lexical_dropWhile {b a : Trivia} (hb : ∀ x ∈ b, x.Lexical t) (ha : ∀ x ∈ a, x.Lexical t) :
    ∀ x ∈ b ++ a.dropWhile Trivium.isSpace, x.Lexical t := by
  intro x hx
  rcases List.mem_append.mp hx with hx | hx
  · exact hb x hx
  · exact ha x ((List.dropWhile_sublist _).subset hx)

theorem lexical_stripFrom (b : Trivia) (p : Property) (a : Trivia) (rest : List Slot)
    (h : ∀ slot ∈ Slot.filled b p a :: rest, slot.Lexical t) :
    ∀ slot ∈ (stripFrom b p a rest).slots, slot.Lexical t := by
  induction rest generalizing b p a with
  | nil =>
    obtain ⟨⟨hb, hp, ha⟩, -⟩ := List.forall_mem_cons.mp h
    unfold stripFrom
    split
    · exact List.forall_mem_cons.mpr ⟨lexical_dropWhile hb ha, List.forall_mem_nil _⟩
    · exact h
  | cons s rest ih =>
    obtain ⟨⟨hb, hp, ha⟩, hrest⟩ := List.forall_mem_cons.mp h
    obtain ⟨hs, htail⟩ := List.forall_mem_cons.mp hrest
    cases s with
    | hole trailing =>
      unfold stripFrom
      split
      · split
        · exact List.forall_mem_cons.mpr ⟨lexical_dropWhile hb hs, htail⟩
        · exact List.forall_mem_cons.mpr ⟨lexical_dropWhile hb ha, hrest⟩
      · exact h
    | filled b' p' a' =>
      unfold stripFrom
      split
      · exact ih b p' a' (List.forall_mem_cons.mpr ⟨⟨hb, hs.2⟩, htail⟩)
      · exact List.forall_mem_cons.mpr ⟨⟨hb, hp, ha⟩, ih b' p' a' hrest⟩

theorem lexical_strip (h : ∀ slot ∈ l.slots, slot.Lexical t) : ∀ slot ∈ l.strip.slots, slot.Lexical t := by
  obtain ⟨first, rest⟩ := l
  cases first with
  | hole trivia => exact h
  | filled b p a => exact lexical_stripFrom b p a rest h

end Lexical

end ObjectLiteral

/-! ## One pass -/

section Pass
variable {G : JsParser} {m : Module} {factoryNames : List String} {f : CallEdits}
  {g : FactoryExport → ObjectLiteral → ObjectLiteral}

theorem matchFactoryExport_eq_some {frame : ExportedCall} {e : FactoryExport} :
    matchFactoryExport frame factoryNames = some e ↔
      (frame.kind = .const ∧ frame.declarations = 1) ∧ frame.id = some e.id ∧ frame.callee = some e.factory ∧
        e.factory ∈ factoryNames := by
  unfold matchFactoryExport
  split
  · rename_i hdeclaration
    refine iff_of_false nofun ?_
    rintro ⟨⟨hkind, hone⟩, -⟩
    exact hdeclaration.elim (· hkind) (· hone)
  · rename_i hdeclaration
    rw [not_or, not_not, not_not] at hdeclaration
    cases hid : frame.id with
    | none => simp
    | some id =>
      cases hcallee : frame.callee with
      | none => simp
      | some name =>
        obtain ⟨eid, factory⟩ := e
        by_cases hname : name ∈ factoryNames
        · simp only [if_pos hname, Option.some.injEq, FactoryExport.mk.injEq, hdeclaration, true_and]
          constructor
          · rintro ⟨rfl, rfl⟩
            exact ⟨rfl, rfl, hname⟩
          · rintro ⟨rfl, rfl, -⟩
            exact ⟨rfl, rfl⟩
        · simp only [if_neg hname, reduceCtorEq, false_iff, Option.some.injEq]
          rintro ⟨-, -, rfl, hmem⟩
          exact hname hmem

theorem frames_rewrite (m : Module) :
    (m.map (Statement.rewrite factoryNames g)).map Statement.frame = m.map Statement.frame := by
  rw [List.map_map]
  refine List.map_congr_left ?_
  intro s _
  cases s with
  | other text => rfl
  | call frame l =>
    simp only [Function.comp, Statement.rewrite]
    split <;> rfl

theorem lexical_rewrite {t : Tokens} (h : Lexical t m)
    (hslots : ∀ frame l e, Frame.call frame ∈ m.map Statement.frame → frame.id = some e.id →
      (∀ slot ∈ l.slots, slot.Lexical t) → ∀ slot ∈ (g e l).slots, slot.Lexical t) :
    Lexical t (m.map (Statement.rewrite factoryNames g)) where
  program := by
    rw [frames_rewrite]
    exact h.program
  slots := by
    intro s' hs' l' hl'
    obtain ⟨s, hs, rfl⟩ := List.mem_map.mp hs'
    cases s with
    | other text => cases hl'
    | call frame l =>
      have hl := h.slots _ hs l rfl
      simp only [Statement.rewrite] at hl'
      split at hl'
      · cases hl'
        exact hl
      · rename_i e hmatch
        cases hl'
        exact hslots frame l e (List.mem_map_of_mem hs) (matchFactoryExport_eq_some.mp hmatch).2.1 hl

/-- A pass on a source that the parser accepts. -/
theorem runPass_of_parse (factoryNames : List String) {Valid : ObjectLiteral → Prop} (h : Rewrites f g Valid)
    (mightContain : List Char → Bool) (hparse : G.parse (renderModule m) = some m) (hvalid : ∀ s ∈ m, ∀ l, s.literal? = some l → Valid l) :
    (runPass G mightContain factoryNames f (renderModule m)).map (·.getD (renderModule m)) =
      some (renderModule (if mightContain (renderModule m) then m.map (Statement.rewrite factoryNames g) else m)) := by
  have hbody : applyEdits 0 (renderModule m) (bodyEdits factoryNames f (renderModule m) 0 m) =
      renderModule (m.map (Statement.rewrite factoryNames g)) := h.body [] m hvalid
  unfold runPass
  split
  · simp only [hparse, Option.map_some]
    split
    · rename_i hnone
      rw [List.isEmpty_iff.mp hnone] at hbody
      rw [Option.getD_none, ← hbody]
      rfl
    · rw [Option.getD_some, hbody]
  · rfl

theorem runPass_of_not_parse {code : List Char} {mightContain : List Char → Bool} (hparse : G.parse code = none)
    (hmight : mightContain code = true) : (runPass G mightContain factoryNames f code).map (·.getD code) = none := by
  simp only [runPass, hmight, if_true, hparse, Option.map_none]

end Pass

/-! ## Calls in the text -/

theorem paren_ne_hexDigit (n : Nat) : '(' ≠ hexDigit n := by
  have hdigits : ∀ c ∈ "0123456789abcdef".toList, '(' ≠ c := by simp
  unfold hexDigit
  rw [List.getD_eq_getElem?_getD]
  cases hn : "0123456789abcdef".toList[n]? with
  | none => decide
  | some c => exact hdigits c (List.mem_of_getElem? hn)

theorem eq_of_paren_mem_escapeChar {c : Char} (h : '(' ∈ escapeChar c) : c = '(' := by
  unfold escapeChar at h
  repeat' split at h
  all_goals simp [paren_ne_hexDigit] at h
  exact h.symm

theorem paren_not_mem_nameText {id : String} (hid : '(' ∉ id.toList) (l : ObjectLiteral) : '(' ∉ l.nameText id := by
  have hprint : '(' ∉ printString id := by
    intro h
    simp only [printString, List.mem_cons, List.mem_append, List.not_mem_nil, or_false] at h
    rcases h with h | h | h
    · exact absurd h (by decide)
    · obtain ⟨c, hc, hescape⟩ := List.mem_flatMap.mp h
      rw [eq_of_paren_mem_escapeChar hescape] at hc
      exact hid hc
    · exact absurd h (by decide)
  simp only [ObjectLiteral.nameText, nameProperty, List.mem_append, not_or]
  refine ⟨?_, by decide, hprint⟩
  split <;> decide

section Calls
variable {G : JsParser} {m : Module} {factoryNames : List String}
  {g : FactoryExport → ObjectLiteral → ObjectLiteral}

/-- The injected names bring no call and split none. -/
theorem isInfix_rewrite {q : List Char} (hq : '}' ∉ q ++ ['('])
    (hg : ∀ frame l e, Statement.call frame l ∈ m → matchFactoryExport frame factoryNames = some e →
      g e l = l ∨ g e l = l.addName e.id ∧ Separated l.first l.rest ∧ '(' ∉ e.id.toList) (pre : List Char) :
    q ++ ['('] <:+: pre ++ renderModule (m.map (Statement.rewrite factoryNames g)) ↔
      q ++ ['('] <:+: pre ++ renderModule m := by
  induction m generalizing pre with
  | nil => exact Iff.rfl
  | cons s rest ih =>
    have hrest := ih fun frame l e hmem => hg frame l e (List.mem_cons_of_mem s hmem)
    have hsame : q ++ ['('] <:+: pre ++ (s.render ++ renderModule (rest.map (Statement.rewrite factoryNames g))) ↔
        q ++ ['('] <:+: pre ++ (s.render ++ renderModule rest) := by
      rw [← List.append_assoc, ← List.append_assoc]
      exact hrest (pre ++ s.render)
    cases s with
    | other text => exact hsame
    | call frame l =>
      cases hmatch : matchFactoryExport frame factoryNames with
      | none =>
        have hkept : Statement.rewrite factoryNames g (.call frame l) = .call frame l := by
          simp only [Statement.rewrite, hmatch]
        rw [List.map_cons, hkept]
        exact hsame
      | some e =>
        have himage : Statement.rewrite factoryNames g (.call frame l) = .call frame (g e l) := by
          simp only [Statement.rewrite, hmatch]
        rw [List.map_cons, himage]
        rcases hg frame l e List.mem_cons_self hmatch with hl | ⟨hl, hseparated, hid⟩
        · rw [hl]
          exact hsame
        · have hnamed : pre ++ renderModule (.call frame (g e l) :: rest.map (Statement.rewrite factoryNames g)) =
              (pre ++ frame.head ++ '{' :: l.inner) ++ l.nameText e.id ++ '}' ::
                (frame.tail ++ renderModule (rest.map (Statement.rewrite factoryNames g))) := by
            simp [renderModule, Statement.render, hl, ObjectLiteral.render_addName e.id hseparated]
          have hplain : pre ++ renderModule (.call frame l :: rest) =
              (pre ++ frame.head ++ '{' :: l.inner) ++ '}' :: (frame.tail ++ renderModule rest) := by
            simp [renderModule, Statement.render, ObjectLiteral.render]
          rw [hnamed, hplain, isInfix_insert_iff hq (paren_not_mem_nameText hid l), isInfix_append_cons_iff hq,
            isInfix_append_cons_iff hq, hrest frame.tail]

theorem contains_rewrite (hparse : G.parse (renderModule m) = some m)
    (hg : ∀ e l, g e l = l ∨ g e l = l.addName e.id) {pattern : String} {q : List Char}
    (hpattern : pattern.toList = q ++ ['(']) (hq : '}' ∉ q ++ ['(']) :
    contains pattern (renderModule (m.map (Statement.rewrite factoryNames g))) = contains pattern (renderModule m) := by
  obtain ⟨hlexical, hgrammatical, -⟩ := (G.parse_eq_some _ _).mp hparse
  unfold contains
  rw [hpattern, decide_eq_decide]
  refine isInfix_rewrite hq ?_ []
  intro frame l e hmem hmatch
  refine (hg e l).imp_right fun hl => ⟨hl, hgrammatical _ hmem l rfl, ?_⟩
  exact G.id_paren _ frame e.id hlexical.program (List.mem_map_of_mem hmem)
    (matchFactoryExport_eq_some.mp hmatch).2.1

end Calls

/-! ## The three passes -/

section Stages
variable (code : List Char)

def nameAction (s : Statement) : Statement :=
  if sourceMightContainActionCall code then s.rewrite ["action"] fun e l => l.addName e.id else s

def nameQueue (s : Statement) : Statement :=
  if sourceMightContainQueueCall code then s.rewrite ["defineQueue"] fun e l => l.addNameIfMissing e.id else s

def stripStatement (s : Statement) : Statement :=
  if sourceMightContainFactoryCall code then s.rewrite zodFactories fun _ l => l.strip else s

def Statement.Separated (s : Statement) : Prop := ∀ l, s.literal? = some l → Sdk.Separated l.first l.rest

/-- Each stage of a statement parses, and the last one is the expected one. -/
structure StatementTransformed (s : Statement) : Prop where
  named : (nameAction code s).Separated
  queued : (nameQueue code (nameAction code s)).Separated
  stripped : (stripStatement code (nameQueue code (nameAction code s))).Separated
  becomes : Becomes s (stripStatement code (nameQueue code (nameAction code s)))

end Stages

theorem ite_map {α : Type} (b : Bool) (f : α → α) (l : List α) :
    (if b then l.map f else l) = l.map fun x => if b then f x else x := by
  cases b with
  | false => exact (List.map_id l).symm
  | true => rfl

section Transforms
variable {G : JsParser} {m : Module}

theorem lexical_nameActions (h : Lexical G.toTokens m) (code : List Char) :
    Lexical G.toTokens (m.map (nameAction code)) := by
  unfold nameAction
  rw [← ite_map]
  split
  · refine lexical_rewrite h ?_
    intro frame l e hframe hid hl
    exact ObjectLiteral.lexical_addName (G.name_property _ frame e.id h.program hframe hid) hl
  · exact h

theorem lexical_nameQueues (h : Lexical G.toTokens m) (code : List Char) :
    Lexical G.toTokens (m.map (nameQueue code)) := by
  unfold nameQueue
  rw [← ite_map]
  split
  · refine lexical_rewrite h ?_
    intro frame l e hframe hid hl
    unfold ObjectLiteral.addNameIfMissing
    split
    · exact hl
    · exact ObjectLiteral.lexical_addName (G.name_property _ frame e.id h.program hframe hid) hl
  · exact h

theorem lexical_stripStatements (h : Lexical G.toTokens m) (code : List Char) :
    Lexical G.toTokens (m.map (stripStatement code)) := by
  unfold stripStatement
  rw [← ite_map]
  split
  · exact lexical_rewrite h fun frame l e hframe hid hl => ObjectLiteral.lexical_strip hl
  · exact h

theorem contains_nameActions (hparse : G.parse (renderModule m) = some m) (code : List Char) {pattern : String}
    {q : List Char} (hpattern : pattern.toList = q ++ ['(']) (hq : '}' ∉ q ++ ['(']) :
    contains pattern (renderModule (m.map (nameAction code))) = contains pattern (renderModule m) := by
  unfold nameAction
  rw [← ite_map]
  split
  · exact contains_rewrite hparse (fun e l => .inr rfl) hpattern hq
  · rfl

theorem contains_nameQueues (hparse : G.parse (renderModule m) = some m) (code : List Char) {pattern : String}
    {q : List Char} (hpattern : pattern.toList = q ++ ['(']) (hq : '}' ∉ q ++ ['(']) :
    contains pattern (renderModule (m.map (nameQueue code))) = contains pattern (renderModule m) := by
  unfold nameQueue
  rw [← ite_map]
  split
  · refine contains_rewrite hparse ?_ hpattern hq
    intro e l
    unfold ObjectLiteral.addNameIfMissing
    split
    · exact .inl rfl
    · exact .inr rfl
  · rfl

/-- The prefilters say of a source with injected names what they say of the source. -/
structure SameCalls (code code' : List Char) : Prop where
  action : contains "action(" code' = contains "action(" code
  http : contains "httpTrigger(" code' = contains "httpTrigger(" code
  cron : contains "cronTrigger(" code' = contains "cronTrigger(" code
  queue : contains "defineQueue(" code' = contains "defineQueue(" code

theorem SameCalls.trans {a b c : List Char} (hab : SameCalls a b) (hbc : SameCalls b c) : SameCalls a c :=
  ⟨hbc.action.trans hab.action, hbc.http.trans hab.http, hbc.cron.trans hab.cron, hbc.queue.trans hab.queue⟩

theorem SameCalls.factory {a b : List Char} (h : SameCalls a b) :
    sourceMightContainFactoryCall b = sourceMightContainFactoryCall a := by
  simp only [sourceMightContainFactoryCall, h.action, h.http, h.cron, h.queue]

theorem sameCalls_nameActions (hparse : G.parse (renderModule m) = some m) (code : List Char) :
    SameCalls (renderModule m) (renderModule (m.map (nameAction code))) where
  action := contains_nameActions hparse code (q := "action".toList) (by decide) (by decide)
  http := contains_nameActions hparse code (q := "httpTrigger".toList) (by decide) (by decide)
  cron := contains_nameActions hparse code (q := "cronTrigger".toList) (by decide) (by decide)
  queue := contains_nameActions hparse code (q := "defineQueue".toList) (by decide) (by decide)

theorem sameCalls_nameQueues (hparse : G.parse (renderModule m) = some m) (code : List Char) :
    SameCalls (renderModule m) (renderModule (m.map (nameQueue code))) where
  action := contains_nameQueues hparse code (q := "action".toList) (by decide) (by decide)
  http := contains_nameQueues hparse code (q := "httpTrigger".toList) (by decide) (by decide)
  cron := contains_nameQueues hparse code (q := "cronTrigger".toList) (by decide) (by decide)
  queue := contains_nameQueues hparse code (q := "defineQueue".toList) (by decide) (by decide)

theorem injectActionNames_of_parse (hparse : G.parse (renderModule m) = some m) :
    (injectActionNames G (renderModule m)).map (·.getD (renderModule m)) =
      some (renderModule (m.map (nameAction (renderModule m)))) := by
  have hpass := runPass_of_parse ["action"] rewrites_addName sourceMightContainActionCall hparse
    ((G.parse_eq_some _ _).mp hparse).2.1
  rw [ite_map] at hpass
  exact hpass

theorem injectQueueNames_of_parse (hparse : G.parse (renderModule m) = some m) :
    (injectQueueNames G (renderModule m)).map (·.getD (renderModule m)) =
      some (renderModule (m.map (nameQueue (renderModule m)))) := by
  have hpass := runPass_of_parse ["defineQueue"] rewrites_addNameIfMissing
    sourceMightContainQueueCall hparse ((G.parse_eq_some _ _).mp hparse).2.1
  rw [ite_map] at hpass
  exact hpass

theorem stripZodFactoryProperties_of_parse (hparse : G.parse (renderModule m) = some m) :
    (stripZodFactoryProperties G (renderModule m)).map (·.getD (renderModule m)) =
      some (renderModule (m.map (stripStatement (renderModule m)))) := by
  obtain ⟨hlexical, hgrammatical, -⟩ := (G.parse_eq_some _ _).mp hparse
  have hpass := runPass_of_parse zodFactories (rewrites_strip G.comment_slash)
    sourceMightContainFactoryCall hparse fun s hs l hl => ⟨hgrammatical s hs l hl, hlexical.slots s hs l hl⟩
  rw [ite_map] at hpass
  exact hpass

theorem stripZodFactoryProperties_of_not_parse {code : List Char} (hparse : G.parse code = none)
    (hmight : sourceMightContainFactoryCall code = true) :
    (stripZodFactoryProperties G code).map (·.getD code) = none :=
  runPass_of_not_parse hparse hmight

/-- Whatever a pass makes unparsable makes the last pass throw at the latest. -/
theorem transforms_of_not_grammatical (hparse : G.parse (renderModule m) = some m)
    (hnot : ¬ Grammatical (m.map (nameAction (renderModule m)))) : transforms G (renderModule m) = none := by
  have hlexical := ((G.parse_eq_some _ _).mp hparse).1
  have hcalls := sameCalls_nameActions hparse (renderModule m)
  have hnone := G.parse_render_eq_none (lexical_nameActions hlexical (renderModule m)) hnot
  have hmight : sourceMightContainActionCall (renderModule m) = true := by
    by_contra hfalse
    refine hnot ?_
    have hsame : m.map (nameAction (renderModule m)) = m := by
      unfold nameAction
      rw [← ite_map, if_neg hfalse]
    rw [hsame]
    exact ((G.parse_eq_some _ _).mp hparse).2.1
  unfold transforms
  rw [injectActionNames_of_parse hparse]
  simp only [Option.bind_eq_bind, Option.bind_some]
  cases hqueue : sourceMightContainQueueCall (renderModule (m.map (nameAction (renderModule m)))) with
  | true => rw [injectQueueNames, runPass_of_not_parse hnone hqueue, Option.bind_none]
  | false =>
    have hunchanged : injectQueueNames G (renderModule (m.map (nameAction (renderModule m)))) = some none := by
      simp only [injectQueueNames, runPass, hqueue, Bool.false_eq_true, if_false]
    rw [hunchanged]
    simp only [Option.map_some, Option.getD_none, Option.bind_some]
    refine stripZodFactoryProperties_of_not_parse hnone ?_
    rw [hcalls.factory]
    have haction : contains "action(" (renderModule m) = true := hmight
    simp only [sourceMightContainFactoryCall, haction, Bool.true_or]

theorem grammatical_map (f : Statement → Statement) : Grammatical (m.map f) ↔ ∀ s ∈ m, (f s).Separated := by
  simp [Grammatical, Statement.Separated]

/-- The source before the last pass, and what the prefilters say of it. -/
theorem transforms_of_named (hparse : G.parse (renderModule m) = some m)
    (hnamed : Grammatical (m.map (nameAction (renderModule m)))) :
    transforms G (renderModule m) =
        (stripZodFactoryProperties G (renderModule
          ((m.map (nameAction (renderModule m))).map (nameQueue (renderModule m))))).map
          (·.getD (renderModule ((m.map (nameAction (renderModule m))).map (nameQueue (renderModule m))))) ∧
      SameCalls (renderModule m)
        (renderModule ((m.map (nameAction (renderModule m))).map (nameQueue (renderModule m)))) := by
  have hlexical := ((G.parse_eq_some _ _).mp hparse).1
  have hparse₁ := G.parse_render (lexical_nameActions hlexical (renderModule m)) hnamed
  have hcalls₁ := sameCalls_nameActions hparse (renderModule m)
  have hqueue : nameQueue (renderModule (m.map (nameAction (renderModule m)))) = nameQueue (renderModule m) := by
    unfold nameQueue sourceMightContainQueueCall
    rw [hcalls₁.queue]
  have hpass := injectQueueNames_of_parse hparse₁
  have hcalls₂ := sameCalls_nameQueues hparse₁ (renderModule (m.map (nameAction (renderModule m))))
  rw [hqueue] at hpass hcalls₂
  refine ⟨?_, hcalls₁.trans hcalls₂⟩
  unfold transforms
  rw [injectActionNames_of_parse hparse]
  simp only [Option.bind_eq_bind, Option.bind_some]
  rw [hpass]
  rfl

theorem queue_of_not_grammatical {code : List Char} (hgrammatical : Grammatical m)
    (hnot : ¬ Grammatical (m.map (nameQueue code))) : contains "defineQueue(" code = true := by
  by_contra hfalse
  refine hnot ?_
  have hsame : m.map (nameQueue code) = m := by
    unfold nameQueue
    rw [← ite_map]
    exact if_neg hfalse
  rwa [hsame]

theorem forall₂_becomes_map (f : Statement → Statement) :
    List.Forall₂ Becomes m (m.map f) ↔ ∀ s ∈ m, Becomes s (f s) := by
  rw [List.forall₂_map_right_iff, List.forall₂_same]

/-- The passes go right exactly where they do at each statement. -/
theorem transformed_iff (hparse : G.parse (renderModule m) = some m) :
    Transformed G (renderModule m) m ↔ ∀ s ∈ m, StatementTransformed (renderModule m) s := by
  have hlexical := ((G.parse_eq_some _ _).mp hparse).1
  have hlexical₂ := lexical_nameQueues (lexical_nameActions hlexical (renderModule m)) (renderModule m)
  have hlexical₃ := lexical_stripStatements hlexical₂ (renderModule m)
  by_cases hnamed : Grammatical (m.map (nameAction (renderModule m)))
  · obtain ⟨htransforms, hcalls⟩ := transforms_of_named hparse hnamed
    by_cases hqueued : Grammatical ((m.map (nameAction (renderModule m))).map (nameQueue (renderModule m)))
    · have hstrip : stripStatement (renderModule ((m.map (nameAction (renderModule m))).map
          (nameQueue (renderModule m)))) = stripStatement (renderModule m) := by
        unfold stripStatement
        rw [hcalls.factory]
      rw [stripZodFactoryProperties_of_parse (G.parse_render hlexical₂ hqueued), hstrip] at htransforms
      rw [List.map_map, List.map_map] at hlexical₃ htransforms
      rw [List.map_map] at hqueued
      constructor
      · rintro ⟨out, m', hout, hparse', hbecomes⟩
        rw [htransforms, Option.some_inj] at hout
        subst hout
        obtain ⟨hlexical', hgrammatical', hrender'⟩ := (G.parse_eq_some _ _).mp hparse'
        have hsame := G.unambiguous _ _ hlexical' hlexical₃ hrender'
        subst hsame
        intro s hs
        exact ⟨(grammatical_map _).mp hnamed s hs, (grammatical_map _).mp hqueued s hs,
          (grammatical_map _).mp hgrammatical' s hs, (forall₂_becomes_map _).mp hbecomes s hs⟩
      · intro hall
        refine ⟨_, _, htransforms, G.parse_render hlexical₃ ?_, ?_⟩
        · exact (grammatical_map _).mpr fun s hs => (hall s hs).stripped
        · exact (forall₂_becomes_map _).mpr fun s hs => (hall s hs).becomes
    · refine iff_of_false ?_ ?_
      · rintro ⟨out, m', hout, -⟩
        have hmight : sourceMightContainFactoryCall (renderModule m) = true := by
          simp only [sourceMightContainFactoryCall, queue_of_not_grammatical hnamed hqueued, Bool.or_true]
        rw [htransforms, stripZodFactoryProperties_of_not_parse (G.parse_render_eq_none hlexical₂ hqueued)
          (hcalls.factory.trans hmight)] at hout
        cases hout
      · intro hall
        rw [List.map_map] at hqueued
        exact hqueued ((grammatical_map _).mpr fun s hs => (hall s hs).queued)
  · refine iff_of_false ?_ ?_
    · rintro ⟨out, m', hout, -⟩
      rw [transforms_of_not_grammatical hparse hnamed] at hout
      cases hout
    · intro hall
      exact hnamed ((grammatical_map _).mpr fun s hs => (hall s hs).named)

end Transforms

/-! ## The sources that come out right -/

/-- Each key that the passes take for a Zod property is one. -/
def ZodKeysStatic (l : ObjectLiteral) : Prop :=
  ∀ p ∈ l.properties, isZodProperty p.member = true → isStaticZod p.member = true

def HasStaticName (l : ObjectLiteral) : Prop := ∃ p ∈ l.properties, staticName p.member = some "name"

def HasStaticZod (l : ObjectLiteral) : Prop := ∃ p ∈ l.properties, isStaticZod p.member = true

/-- What the literal of an export and the source around it need. -/
structure RegularCall (code : List Char) (frame : ExportedCall) (l : ObjectLiteral) : Prop where
  action : ∀ e, matchFactoryExport frame ["action"] = some e →
    sourceMightContainActionCall code = true ∧ ¬ l.TrailingComma ∧ ZodKeysStatic l
  queue : ∀ e, matchFactoryExport frame ["defineQueue"] = some e →
    HasStaticName l ∨ l.hasName = false ∧ sourceMightContainQueueCall code = true ∧ ¬ l.TrailingComma
  trigger : ∀ e, matchFactoryExport frame ["httpTrigger", "cronTrigger"] = some e →
    sourceMightContainFactoryCall code = true →
      ZodKeysStatic l ∧ ¬ ObjectLiteral.CommentedComma l.first l.rest
  untouched : ∀ e, matchFactoryExport frame ["httpTrigger", "cronTrigger"] = some e →
    sourceMightContainFactoryCall code = false → ¬ HasStaticZod l

section Regular
variable {code : List Char} {frame : ExportedCall} {l : ObjectLiteral} {e : FactoryExport}

theorem matchFactoryExport_of_match {names : List String} (h : matchFactoryExport frame names = some e)
    (names' : List String) :
    matchFactoryExport frame names' = if e.factory ∈ names' then some e else none := by
  obtain ⟨hdeclaration, hid, hcallee, -⟩ := matchFactoryExport_eq_some.mp h
  split
  · rename_i hmem
    exact matchFactoryExport_eq_some.mpr ⟨hdeclaration, hid, hcallee, hmem⟩
  · rename_i hmem
    rw [Option.eq_none_iff_forall_ne_some]
    intro e' he'
    obtain ⟨-, -, hcallee', hmem'⟩ := matchFactoryExport_eq_some.mp he'
    rw [hcallee, Option.some_inj] at hcallee'
    exact hmem (hcallee' ▸ hmem')

theorem isZodProperty_of_isStaticZod {m : Member} (h : isStaticZod m = true) : isZodProperty m = true := by
  unfold isStaticZod at h
  unfold isZodProperty
  cases m with
  | spread => exact h
  | property key computed =>
    cases computed with
    | true => cases key <;> cases h
    | false => cases key <;> exact h

/-- The passes leave as many properties as expected only if they remove no others. -/
theorem filter_zod_eq_iff (l : ObjectLiteral) :
    l.properties.filter (fun p => !isZodProperty p.member) = l.properties.filter (fun p => !isStaticZod p.member) ↔
      ZodKeysStatic l := by
  constructor
  · intro hfilter p hp hzod
    by_contra hstatic
    have hkept : p ∈ l.properties.filter fun p => !isStaticZod p.member :=
      List.mem_filter.mpr ⟨hp, by simpa using hstatic⟩
    rw [← hfilter] at hkept
    have hremains := (List.mem_filter.mp hkept).2
    rw [hzod] at hremains
    cases hremains
  · intro hkeys
    refine List.filter_congr ?_
    intro p hp
    cases hzod : isZodProperty p.member with
    | true => rw [hkeys p hp hzod]
    | false =>
      cases hstatic : isStaticZod p.member with
      | false => rfl
      | true =>
        rw [isZodProperty_of_isStaticZod hstatic] at hzod
        cases hzod

theorem becomes_call_iff {l' : ObjectLiteral} :
    Becomes (.call frame l) (.call frame l') ↔ l'.properties = expectedProperties frame l.properties := by
  constructor
  · intro h
    cases h with
    | call _ _ _ hproperties => exact hproperties
  · exact .call frame l l'

theorem separated_call_iff : Statement.Separated (.call frame l) ↔ Separated l.first l.rest := by
  simp [Statement.Separated, Statement.literal?]

theorem rewrite_none {names : List String} (h : matchFactoryExport frame names = none)
    (g : FactoryExport → ObjectLiteral → ObjectLiteral) :
    Statement.rewrite names g (.call frame l) = .call frame l := by
  simp only [Statement.rewrite, h]

theorem rewrite_some {names : List String} (h : matchFactoryExport frame names = some e)
    (g : FactoryExport → ObjectLiteral → ObjectLiteral) :
    Statement.rewrite names g (.call frame l) = .call frame (g e l) := by
  simp only [Statement.rewrite, h]

theorem factory_of_match {name : String} (h : matchFactoryExport frame [name] = some e) : e.factory = name :=
  List.mem_singleton.mp (matchFactoryExport_eq_some.mp h).2.2.2

/-- The literals of the three stages. -/
theorem statementTransformed_call_iff {l₁ l₂ l₃ : ObjectLiteral}
    (h₁ : nameAction code (.call frame l) = .call frame l₁) (h₂ : nameQueue code (.call frame l₁) = .call frame l₂)
    (h₃ : stripStatement code (.call frame l₂) = .call frame l₃) :
    StatementTransformed code (.call frame l) ↔
      Separated l₁.first l₁.rest ∧ Separated l₂.first l₂.rest ∧ Separated l₃.first l₃.rest ∧
        l₃.properties = expectedProperties frame l.properties := by
  constructor
  · rintro ⟨hnamed, hqueued, hstripped, hbecomes⟩
    rw [h₁, separated_call_iff] at hnamed
    rw [h₁, h₂, separated_call_iff] at hqueued
    rw [h₁, h₂, h₃, separated_call_iff] at hstripped
    rw [h₁, h₂, h₃, becomes_call_iff] at hbecomes
    exact ⟨hnamed, hqueued, hstripped, hbecomes⟩
  · rintro ⟨hnamed, hqueued, hstripped, hbecomes⟩
    refine ⟨?_, ?_, ?_, ?_⟩
    · rwa [h₁, separated_call_iff]
    · rwa [h₁, h₂, separated_call_iff]
    · rwa [h₁, h₂, h₃, separated_call_iff]
    · rwa [h₁, h₂, h₃, becomes_call_iff]

/-- The literal of an export that no pass matches. -/
theorem nameAction_none (h : matchFactoryExport frame ["action"] = none) :
    nameAction code (.call frame l) = .call frame l := by
  unfold nameAction
  rw [rewrite_none h, ite_self]

theorem nameQueue_none (h : matchFactoryExport frame ["defineQueue"] = none) :
    nameQueue code (.call frame l) = .call frame l := by
  unfold nameQueue
  rw [rewrite_none h, ite_self]

theorem stripStatement_none (h : matchFactoryExport frame zodFactories = none) :
    stripStatement code (.call frame l) = .call frame l := by
  unfold stripStatement
  rw [rewrite_none h, ite_self]

theorem stripStatement_some (h : matchFactoryExport frame zodFactories = some e) :
    stripStatement code (.call frame l) =
      .call frame (if sourceMightContainFactoryCall code then l.strip else l) := by
  unfold stripStatement
  split
  · exact rewrite_some h _
  · rfl

/-- Neither removing Zod properties nor leaving them gives the properties and a name. -/
theorem properties_ne_expected (l : ObjectLiteral) (id : String) {properties : List Property}
    (h : properties = l.properties ∨ properties = l.properties.filter fun p => !isZodProperty p.member) :
    properties ≠ (l.properties.filter fun p => !isStaticZod p.member) ++ [nameProperty id] := by
  intro hproperties
  have hkept : (l.properties.filter fun p => !isStaticZod p.member).filter (fun p => !isZodProperty p.member) =
      l.properties.filter fun p => !isZodProperty p.member := by
    refine List.filter_filter.trans (List.filter_congr ?_)
    intro p _
    cases hstatic : isStaticZod p.member with
    | false => simp
    | true => simp [isZodProperty_of_isStaticZod hstatic]
  have hname : [nameProperty id].filter (fun p => !isZodProperty p.member) = [nameProperty id] := rfl
  have hfilter := congrArg (List.filter fun p => !isZodProperty p.member) hproperties
  have hsame : properties.filter (fun p => !isZodProperty p.member) =
      l.properties.filter fun p => !isZodProperty p.member := by
    rcases h with rfl | rfl
    · rfl
    · rw [List.filter_filter]
      simp
  rw [List.filter_append, hkept, hname, hsame] at hfilter
  have hlength := congrArg List.length hfilter
  rw [List.length_append, List.length_singleton] at hlength
  omega

theorem statementTransformed_action (h : matchFactoryExport frame ["action"] = some e)
    (hseparated : Separated l.first l.rest) :
    StatementTransformed code (.call frame l) ↔
      sourceMightContainActionCall code = true ∧ ¬ l.TrailingComma ∧ ZodKeysStatic l := by
  have hfactory := factory_of_match h
  have hqueue : matchFactoryExport frame ["defineQueue"] = none := by
    rw [matchFactoryExport_of_match h, hfactory, if_neg (by decide)]
  have hzod : matchFactoryExport frame zodFactories = some e := by
    rw [matchFactoryExport_of_match h, hfactory, if_pos (by decide)]
  have hexpected : expectedProperties frame l.properties =
      (l.properties.filter fun p => !isStaticZod p.member) ++ [nameProperty e.id] := by
    have hany : matchFactoryExport frame ["action", "defineQueue", "httpTrigger", "cronTrigger"] = some e := by
      rw [matchFactoryExport_of_match h, hfactory, if_pos (by decide)]
    simp only [expectedProperties, hany, hfactory, if_true]
  cases haction : sourceMightContainActionCall code with
  | false =>
    have hunnamed : nameAction code (.call frame l) = .call frame l := by
      simp only [nameAction, haction, Bool.false_eq_true, if_false]
    rw [statementTransformed_call_iff hunnamed (nameQueue_none hqueue) (stripStatement_some hzod), hexpected]
    refine iff_of_false ?_ fun hregular => Bool.false_ne_true hregular.1
    rintro ⟨-, -, -, hproperties⟩
    refine properties_ne_expected l e.id ?_ hproperties
    split
    · exact .inr (ObjectLiteral.properties_strip hseparated)
    · exact .inl rfl
  | true =>
    have hnamed : nameAction code (.call frame l) = .call frame (l.addName e.id) := by
      simp only [nameAction, haction, if_true, rewrite_some h]
    have hfactories : sourceMightContainFactoryCall code = true := by
      have hcontains : contains "action(" code = true := haction
      simp only [sourceMightContainFactoryCall, hcontains, Bool.true_or]
    have hstripped : stripStatement code (.call frame (l.addName e.id)) = .call frame (l.addName e.id).strip := by
      rw [stripStatement_some hzod, if_pos hfactories]
    rw [statementTransformed_call_iff hnamed (nameQueue_none hqueue) hstripped, hexpected,
      ObjectLiteral.separated_addName e.id hseparated]
    have hproperties : ¬ l.TrailingComma → (l.addName e.id).strip.properties =
        (l.properties.filter fun p => !isZodProperty p.member) ++ [nameProperty e.id] := by
      intro hcomma
      have hname : [nameProperty e.id].filter (fun p => !isZodProperty p.member) = [nameProperty e.id] := rfl
      rw [ObjectLiteral.properties_strip ((ObjectLiteral.separated_addName e.id hseparated).mpr hcomma),
        ObjectLiteral.properties_addName, List.filter_append, hname]
    constructor
    · rintro ⟨hcomma, -, -, hbecomes⟩
      rw [hproperties hcomma] at hbecomes
      exact ⟨rfl, hcomma, (filter_zod_eq_iff l).mp (List.append_cancel_right hbecomes)⟩
    · rintro ⟨-, hcomma, hkeys⟩
      have hnamedSeparated := (ObjectLiteral.separated_addName e.id hseparated).mpr hcomma
      refine ⟨hcomma, hcomma, ?_, ?_⟩
      · exact (ObjectLiteral.separated_strip hnamedSeparated).mpr (ObjectLiteral.not_commentedComma_addName e.id l)
      · rw [hproperties hcomma, (filter_zod_eq_iff l).mpr hkeys]

theorem propertyKeyName_of_staticName {m : Member} {name : String} (h : staticName m = some name) :
    propertyKeyName m = some name := by
  cases m with
  | spread => cases h
  | property key computed =>
    cases computed with
    | true => cases key <;> cases h
    | false => cases key <;> exact h

theorem hasName_of_static (h : HasStaticName l) : l.hasName = true := by
  obtain ⟨p, hp, hname⟩ := h
  exact List.any_eq_true.mpr ⟨p, hp, decide_eq_true (propertyKeyName_of_staticName hname)⟩

theorem expectedProperties_queue (h : matchFactoryExport frame ["defineQueue"] = some e) [Decidable (HasStaticName l)] :
    expectedProperties frame l.properties =
      if HasStaticName l then l.properties else l.properties ++ [nameProperty e.id] := by
  have hfactory := factory_of_match h
  have hany : matchFactoryExport frame ["action", "defineQueue", "httpTrigger", "cronTrigger"] = some e := by
    rw [matchFactoryExport_of_match h, hfactory, if_pos (by decide)]
  have hstatic : (l.properties.any fun p => staticName p.member = some "name") = true ↔ HasStaticName l := by
    simp [HasStaticName]
  simp only [expectedProperties, hany, hfactory, String.reduceEq, if_false, if_true, hstatic]

theorem statementTransformed_queue (h : matchFactoryExport frame ["defineQueue"] = some e)
    (hseparated : Separated l.first l.rest) :
    StatementTransformed code (.call frame l) ↔
      HasStaticName l ∨ l.hasName = false ∧ sourceMightContainQueueCall code = true ∧ ¬ l.TrailingComma := by
  have hfactory := factory_of_match h
  have haction : matchFactoryExport frame ["action"] = none := by
    rw [matchFactoryExport_of_match h, hfactory, if_neg (by decide)]
  have hzod : matchFactoryExport frame zodFactories = none := by
    rw [matchFactoryExport_of_match h, hfactory, if_neg (by decide)]
  by_cases hkept : sourceMightContainQueueCall code = true ∧ l.hasName = false
  · obtain ⟨hcall, hname⟩ := hkept
    have hqueued : nameQueue code (.call frame l) = .call frame (l.addName e.id) := by
      simp [nameQueue, hcall, rewrite_some h, ObjectLiteral.addNameIfMissing, hname]
    have hstatic : ¬ HasStaticName l := by
      intro hstatic
      rw [hasName_of_static hstatic] at hname
      cases hname
    have hexpected : expectedProperties frame l.properties = l.properties ++ [nameProperty e.id] := by
      classical
      rw [expectedProperties_queue h, if_neg hstatic]
    rw [statementTransformed_call_iff (nameAction_none haction) hqueued (stripStatement_none hzod), hexpected,
      ObjectLiteral.separated_addName e.id hseparated, ObjectLiteral.properties_addName]
    simp [hseparated, hstatic, hname, hcall]
  · have hqueued : nameQueue code (.call frame l) = .call frame l := by
      unfold nameQueue
      split
      · rename_i hcall
        have hname : l.hasName = true := by simpa [hcall] using hkept
        rw [rewrite_some h]
        simp only [ObjectLiteral.addNameIfMissing, hname, if_true]
      · rfl
    rw [statementTransformed_call_iff (nameAction_none haction) hqueued (stripStatement_none hzod)]
    have hexpected : l.properties = expectedProperties frame l.properties ↔ HasStaticName l := by
      classical
      rw [expectedProperties_queue h]
      split
      · rename_i hstatic
        exact iff_of_true rfl hstatic
      · rename_i hstatic
        exact iff_of_false (by simp) hstatic
    rw [hexpected]
    constructor
    · rintro ⟨-, -, -, hstatic⟩
      exact .inl hstatic
    · rintro (hstatic | ⟨hname, hcall, -⟩)
      · exact ⟨hseparated, hseparated, hseparated, hstatic⟩
      · exact absurd ⟨hcall, hname⟩ hkept

theorem statementTransformed_trigger (h : matchFactoryExport frame ["httpTrigger", "cronTrigger"] = some e)
    (hseparated : Separated l.first l.rest) :
    StatementTransformed code (.call frame l) ↔
      (sourceMightContainFactoryCall code = true →
        ZodKeysStatic l ∧ ¬ ObjectLiteral.CommentedComma l.first l.rest) ∧
      (sourceMightContainFactoryCall code = false → ¬ HasStaticZod l) := by
  have hmem : e.factory ∈ ["httpTrigger", "cronTrigger"] := (matchFactoryExport_eq_some.mp h).2.2.2
  have haction : matchFactoryExport frame ["action"] = none := by
    rw [matchFactoryExport_of_match h, if_neg]
    exact fun hother => absurd (List.mem_singleton.mp hother ▸ hmem) (by decide)
  have hqueue : matchFactoryExport frame ["defineQueue"] = none := by
    rw [matchFactoryExport_of_match h, if_neg]
    exact fun hother => absurd (List.mem_singleton.mp hother ▸ hmem) (by decide)
  have hzod : matchFactoryExport frame zodFactories = some e := by
    rw [matchFactoryExport_of_match h, if_pos]
    exact List.mem_cons_of_mem "action" hmem
  have hexpected : expectedProperties frame l.properties = l.properties.filter fun p => !isStaticZod p.member := by
    have hany : matchFactoryExport frame ["action", "defineQueue", "httpTrigger", "cronTrigger"] = some e := by
      rw [matchFactoryExport_of_match h, if_pos]
      exact List.mem_cons_of_mem "action" (List.mem_cons_of_mem "defineQueue" hmem)
    have hnotAction : e.factory ≠ "action" := fun hname => absurd (hname ▸ hmem) (by decide)
    have hnotQueue : e.factory ≠ "defineQueue" := fun hname => absurd (hname ▸ hmem) (by decide)
    simp only [expectedProperties, hany, if_neg hnotAction, if_neg hnotQueue]
  rw [statementTransformed_call_iff (nameAction_none haction) (nameQueue_none hqueue) (stripStatement_some hzod),
    hexpected]
  cases hcall : sourceMightContainFactoryCall code with
  | true =>
    simp only [if_true]
    rw [ObjectLiteral.separated_strip hseparated, ObjectLiteral.properties_strip hseparated, filter_zod_eq_iff]
    simp [hseparated, and_comm]
  | false =>
    have hall : l.properties = l.properties.filter (fun p => !isStaticZod p.member) ↔ ¬ HasStaticZod l := by
      rw [eq_comm, List.filter_eq_self]
      simp [HasStaticZod]
    simp only [Bool.false_eq_true, if_false]
    rw [hall]
    simp [hseparated]

theorem match_zod_cases {names : List String}
    (haction : matchFactoryExport frame ["action"] = none) (hqueue : matchFactoryExport frame ["defineQueue"] = none)
    (htrigger : matchFactoryExport frame ["httpTrigger", "cronTrigger"] = none)
    (hnames : ∀ name ∈ names, name ∈ ["action", "defineQueue", "httpTrigger", "cronTrigger"]) :
    matchFactoryExport frame names = none := by
  rw [Option.eq_none_iff_forall_ne_some]
  intro e he
  have hmem := hnames _ (matchFactoryExport_eq_some.mp he).2.2.2
  simp only [List.mem_cons, List.not_mem_nil, or_false] at hmem
  rcases hmem with hname | hname | hname | hname
  · rw [matchFactoryExport_of_match he, hname, if_pos (by decide)] at haction
    cases haction
  · rw [matchFactoryExport_of_match he, hname, if_pos (by decide)] at hqueue
    cases hqueue
  · rw [matchFactoryExport_of_match he, hname, if_pos (by decide)] at htrigger
    cases htrigger
  · rw [matchFactoryExport_of_match he, hname, if_pos (by decide)] at htrigger
    cases htrigger

theorem statementTransformed_unmatched (haction : matchFactoryExport frame ["action"] = none)
    (hqueue : matchFactoryExport frame ["defineQueue"] = none)
    (htrigger : matchFactoryExport frame ["httpTrigger", "cronTrigger"] = none)
    (hseparated : Separated l.first l.rest) : StatementTransformed code (.call frame l) := by
  have hzod : matchFactoryExport frame zodFactories = none :=
    match_zod_cases haction hqueue htrigger (by decide)
  have hany : matchFactoryExport frame ["action", "defineQueue", "httpTrigger", "cronTrigger"] = none :=
    match_zod_cases haction hqueue htrigger fun name hname => hname
  rw [statementTransformed_call_iff (nameAction_none haction) (nameQueue_none hqueue) (stripStatement_none hzod)]
  refine ⟨hseparated, hseparated, hseparated, ?_⟩
  simp only [expectedProperties, hany]

theorem statementTransformed_iff (hseparated : Separated l.first l.rest) :
    StatementTransformed code (.call frame l) ↔ RegularCall code frame l := by
  cases haction : matchFactoryExport frame ["action"] with
  | some e =>
    have hqueue : matchFactoryExport frame ["defineQueue"] = none := by
      rw [matchFactoryExport_of_match haction, factory_of_match haction, if_neg (by decide)]
    have htrigger : matchFactoryExport frame ["httpTrigger", "cronTrigger"] = none := by
      rw [matchFactoryExport_of_match haction, factory_of_match haction, if_neg (by decide)]
    rw [statementTransformed_action haction hseparated]
    constructor
    · intro h
      exact ⟨fun _ _ => h, by simp [hqueue], by simp [htrigger], by simp [htrigger]⟩
    · exact fun h => h.action e haction
  | none =>
    cases hqueue : matchFactoryExport frame ["defineQueue"] with
    | some e =>
      have htrigger : matchFactoryExport frame ["httpTrigger", "cronTrigger"] = none := by
        rw [matchFactoryExport_of_match hqueue, factory_of_match hqueue, if_neg (by decide)]
      rw [statementTransformed_queue hqueue hseparated]
      constructor
      · intro h
        exact ⟨by simp [haction], fun _ _ => h, by simp [htrigger], by simp [htrigger]⟩
      · exact fun h => h.queue e hqueue
    | none =>
      cases htrigger : matchFactoryExport frame ["httpTrigger", "cronTrigger"] with
      | some e =>
        rw [statementTransformed_trigger htrigger hseparated]
        constructor
        · intro h
          exact ⟨by simp [haction], by simp [hqueue], fun _ _ => h.1, fun _ _ => h.2⟩
        · exact fun h => ⟨h.trigger e htrigger, h.untouched e htrigger⟩
      | none =>
        refine iff_of_true (statementTransformed_unmatched haction hqueue htrigger hseparated) ?_
        exact ⟨by simp [haction], by simp [hqueue], by simp [htrigger], by simp [htrigger]⟩

end Regular

/-- The three passes in turn give a source that parses, with exactly the expected properties, from the sources
whose exported factory calls are regular and from no others. -/
theorem transforms_iff (G : JsParser) (code : List Char) (m : Module) (h : G.parse code = some m) :
    Transformed G code m ↔ ∀ frame l, Statement.call frame l ∈ m → RegularCall code frame l := by
  obtain ⟨-, hgrammatical, rfl⟩ := (G.parse_eq_some _ _).mp h
  rw [transformed_iff h]
  constructor
  · intro hall frame l hmem
    exact (statementTransformed_iff (hgrammatical _ hmem l rfl)).mp (hall _ hmem)
  · intro hregular s hs
    cases s with
    | call frame l => exact (statementTransformed_iff (hgrammatical _ hs l rfl)).mpr (hregular frame l hs)
    | other text =>
      have hnamed : nameAction (renderModule m) (.other text) = .other text := ite_self _
      have hqueued : nameQueue (renderModule m) (.other text) = .other text := ite_self _
      have hstripped : stripStatement (renderModule m) (.other text) = .other text := ite_self _
      refine ⟨?_, ?_, ?_, ?_⟩
      · rw [hnamed]
        nofun
      · rw [hnamed, hqueued]
        nofun
      · rw [hnamed, hqueued, hstripped]
        nofun
      · rw [hnamed, hqueued, hstripped]
        exact .other text

/-! ## A module with one action

A concrete parser, of modules with one exported action whose literal has the shorthand property `run` or a name. -/

def actionFrame : ExportedCall where
  head := "export const a = action(".toList
  tail := ");".toList
  kind := .const
  declarations := 1
  id := some "a"
  callee := some "action"

def runProperty : Property := ⟨.property (.identifier "run") false, "run".toList⟩

def actionTokens : Tokens where
  IsComment _ := False
  IsProperty p := p ∈ [runProperty, nameProperty "a"]
  IsProgram frames := frames = [.call actionFrame]

def spaces (text : List Char) : Trivia := text.map .space

def readSlot (text : List Char) : Option Slot :=
  let before := text.takeWhile Runtime.Imap.isWhitespace
  let body := text.dropWhile Runtime.Imap.isWhitespace
  if body = [] then some (.hole (spaces before))
  else
    match [runProperty, nameProperty "a"].find? fun p => p.text.isPrefixOf body with
    | none => none
    | some p =>
      let after := body.drop p.text.length
      if after.all Runtime.Imap.isWhitespace then some (.filled (spaces before) p (spaces after)) else none

def readSlots : List (List Char) → Option (List Slot)
  | [] => some []
  | text :: texts =>
    match readSlot text, readSlots texts with
    | some s, some slots => some (s :: slots)
    | _, _ => none

def separatedBool : Slot → List Slot → Bool
  | _, [] => true
  | .hole _, _ :: _ => false
  | .filled _ _ _, s :: rest => separatedBool s rest

/-- The tree of a text, whether or not its commas are right. -/
def readModule (code : List Char) : Option Module :=
  let inner := ((code.drop (actionFrame.head.length + 1)).reverse.drop (actionFrame.tail.length + 1)).reverse
  match readSlots (inner.splitOn ',') with
  | some (first :: rest) =>
    let m := [Statement.call actionFrame ⟨first, rest⟩]
    if renderModule m = code then some m else none
  | _ => none

def parseAction (code : List Char) : Option Module :=
  match readModule code with
  | some [.call frame l] => if separatedBool l.first l.rest then some [.call frame l] else none
  | _ => none

theorem isSpace_of_lexical {t : Trivia} (h : ∀ x ∈ t, x.Lexical actionTokens) :
    spaces (renderTrivia t) = t ∧ (renderTrivia t).all Runtime.Imap.isWhitespace = true := by
  induction t with
  | nil => exact ⟨rfl, rfl⟩
  | cons x t ih =>
    obtain ⟨hx, ht⟩ := List.forall_mem_cons.mp h
    obtain ⟨hspaces, hall⟩ := ih ht
    cases x with
    | comment text => exact False.elim hx
    | space c =>
      refine ⟨congrArg (Trivium.space c :: ·) hspaces, ?_⟩
      have hc : Runtime.Imap.isWhitespace c = true := hx
      have hrender : renderTrivia (.space c :: t) = c :: renderTrivia t := rfl
      rw [hrender, List.all_cons, hc, hall]
      rfl

/-- A property text begins with no whitespace, and only with itself. -/
theorem read_property {p : Property} (hp : p ∈ [runProperty, nameProperty "a"]) (rest : List Char) :
    (p.text ++ rest).takeWhile Runtime.Imap.isWhitespace = [] ∧
    (p.text ++ rest).dropWhile Runtime.Imap.isWhitespace = p.text ++ rest ∧ p.text ++ rest ≠ [] ∧
    ([runProperty, nameProperty "a"].find? fun q => q.text.isPrefixOf (p.text ++ rest)) = some p := by
  have hprefix : p.text.isPrefixOf (p.text ++ rest) = true :=
    List.isPrefixOf_iff_prefix.mpr (List.prefix_append _ _)
  rcases List.mem_cons.mp hp with rfl | hp
  · exact ⟨rfl, rfl, List.cons_ne_nil _ _, List.find?_cons_of_pos hprefix⟩
  · obtain rfl := List.mem_singleton.mp hp
    refine ⟨rfl, rfl, List.cons_ne_nil _ _, ?_⟩
    have hrun : runProperty.text.isPrefixOf ((nameProperty "a").text ++ rest) = false := rfl
    simp only [List.find?_cons, hrun, hprefix]

theorem readSlot_render {s : Slot} (h : s.Lexical actionTokens) : readSlot s.render = some s := by
  cases s with
  | hole t =>
    obtain ⟨hspaces, hall⟩ := isSpace_of_lexical h
    rw [List.all_eq_true] at hall
    simp only [readSlot, Slot.render, List.dropWhile_eq_nil_iff.mpr hall, List.takeWhile_eq_self_iff.mpr hall,
      if_true, hspaces]
  | filled b p a =>
    obtain ⟨hb, hp, ha⟩ := h
    obtain ⟨hbspaces, hball⟩ := isSpace_of_lexical hb
    obtain ⟨haspaces, haall⟩ := isSpace_of_lexical ha
    obtain ⟨htake, hdrop, hne, hfind⟩ := read_property hp (renderTrivia a)
    rw [List.all_eq_true] at hball
    simp only [readSlot, Slot.render, List.takeWhile_append_of_pos hball, List.dropWhile_append_of_pos hball, htake,
      hdrop, if_neg hne, hfind, List.append_nil, List.drop_left, haall, if_true, hbspaces, haspaces]

theorem comma_not_mem_trivia {t : Trivia} (h : ∀ x ∈ t, x.Lexical actionTokens) : ',' ∉ renderTrivia t := by
  intro hmem
  have hspace := List.all_eq_true.mp (isSpace_of_lexical h).2 ',' hmem
  exact absurd hspace (by decide)

theorem comma_not_mem_slot {s : Slot} (h : s.Lexical actionTokens) : ',' ∉ s.render := by
  cases s with
  | hole t => exact comma_not_mem_trivia h
  | filled b p a =>
    obtain ⟨hb, hp, ha⟩ := h
    have htext : ∀ q ∈ [runProperty, nameProperty "a"], ',' ∉ q.text := by decide
    simp only [Slot.render, List.mem_append, not_or]
    exact ⟨comma_not_mem_trivia hb, htext p hp, comma_not_mem_trivia ha⟩

theorem splitOn_slots {s : Slot} {rest : List Slot} (h : ∀ slot ∈ s :: rest, slot.Lexical actionTokens) :
    (s.render ++ renderRest rest).splitOn ',' = (s :: rest).map Slot.render := by
  induction rest generalizing s with
  | nil =>
    rw [renderRest, List.flatMap_nil, List.append_nil]
    exact List.splitOn_eq_singleton (comma_not_mem_slot (h s List.mem_cons_self))
  | cons s' rest ih =>
    obtain ⟨hs, hrest⟩ := List.forall_mem_cons.mp h
    have hrender : s.render ++ renderRest (s' :: rest) = s.render ++ ',' :: (s'.render ++ renderRest rest) := rfl
    rw [hrender, List.splitOn_append_cons_self_of_not_mem (comma_not_mem_slot hs), ih hrest]
    rfl

theorem readSlots_render {slots : List Slot} (h : ∀ slot ∈ slots, slot.Lexical actionTokens) :
    readSlots (slots.map Slot.render) = some slots := by
  induction slots with
  | nil => rfl
  | cons s slots ih =>
    obtain ⟨hs, hslots⟩ := List.forall_mem_cons.mp h
    simp only [List.map_cons, readSlots, readSlot_render hs, ih hslots]

theorem module_of_lexical {m : Module} (h : Lexical actionTokens m) :
    ∃ l, m = [.call actionFrame l] ∧ ∀ slot ∈ l.slots, slot.Lexical actionTokens := by
  have hprogram : m.map Statement.frame = [.call actionFrame] := h.program
  obtain ⟨s, rest, rfl, hs, hrest⟩ := List.map_eq_cons_iff.mp hprogram
  obtain rfl := List.map_eq_nil_iff.mp hrest
  cases s with
  | other text => cases hs
  | call frame l =>
    cases hs
    exact ⟨l, rfl, h.slots _ List.mem_cons_self l rfl⟩

theorem readModule_render {m : Module} (h : Lexical actionTokens m) : readModule (renderModule m) = some m := by
  obtain ⟨⟨first, rest⟩, rfl, hslots⟩ := module_of_lexical h
  have hrender : renderModule [.call actionFrame ⟨first, rest⟩] =
      (actionFrame.head ++ ['{']) ++ ((first.render ++ renderRest rest) ++ ('}' :: actionFrame.tail)) := by
    simp [renderModule, Statement.render, ObjectLiteral.render, ObjectLiteral.inner]
  have hinner : ((((renderModule [.call actionFrame ⟨first, rest⟩]).drop
      (actionFrame.head.length + 1)).reverse.drop (actionFrame.tail.length + 1)).reverse) =
        first.render ++ renderRest rest := by
    have hopen : actionFrame.head.length + 1 = (actionFrame.head ++ ['{']).length := rfl
    have hclose : actionFrame.tail.length + 1 = ('}' :: actionFrame.tail).reverse.length := rfl
    rw [hrender, hopen, List.drop_left, List.reverse_append, hclose, List.drop_left, List.reverse_reverse]
  have hslotsRead : readSlots ((first.render ++ renderRest rest).splitOn ',') = some (first :: rest) :=
    (congrArg readSlots (splitOn_slots hslots)).trans (readSlots_render hslots)
  simp only [readModule, hinner, hslotsRead, if_true]

theorem lexical_spaces {text : List Char} (h : ∀ c ∈ text, Runtime.Imap.isWhitespace c = true) :
    ∀ x ∈ spaces text, x.Lexical actionTokens := by
  intro x hx
  obtain ⟨c, hc, rfl⟩ := List.mem_map.mp hx
  exact h c hc

theorem lexical_takeWhile (text : List Char) :
    ∀ x ∈ spaces (text.takeWhile Runtime.Imap.isWhitespace), x.Lexical actionTokens :=
  lexical_spaces fun _ hc => List.mem_takeWhile_imp hc

theorem lexical_of_readSlot {text : List Char} {s : Slot} (h : readSlot text = some s) : s.Lexical actionTokens := by
  simp only [readSlot] at h
  split at h
  · cases h
    exact lexical_takeWhile text
  · split at h
    · cases h
    · rename_i p hfind
      split at h
      · rename_i hall
        cases h
        exact ⟨lexical_takeWhile text, List.mem_of_find?_eq_some hfind,
          lexical_spaces (List.all_eq_true.mp hall)⟩
      · cases h

theorem lexical_of_readSlots {texts : List (List Char)} {slots : List Slot} (h : readSlots texts = some slots) :
    ∀ slot ∈ slots, slot.Lexical actionTokens := by
  induction texts generalizing slots with
  | nil =>
    cases h
    nofun
  | cons text texts ih =>
    unfold readSlots at h
    split at h
    · rename_i s slots' hslot hslots
      cases h
      exact List.forall_mem_cons.mpr ⟨lexical_of_readSlot hslot, ih hslots⟩
    · cases h

theorem lexical_of_readModule {code : List Char} {m : Module} (h : readModule code = some m) :
    Lexical actionTokens m ∧ renderModule m = code := by
  simp only [readModule] at h
  split at h
  · rename_i first rest hslots
    split at h
    · rename_i hrender
      cases h
      refine ⟨⟨rfl, ?_⟩, hrender⟩
      intro s hs l hl
      obtain rfl := List.mem_singleton.mp hs
      cases hl
      exact lexical_of_readSlots hslots
    · cases h
  · cases h

theorem separatedBool_iff (first : Slot) (rest : List Slot) :
    separatedBool first rest = true ↔ Separated first rest := by
  induction rest generalizing first with
  | nil => cases first <;> simp [separatedBool, Separated]
  | cons s rest ih =>
    cases first with
    | hole t => simp [separatedBool, Separated]
    | filled b p a => exact ih s

theorem parseAction_eq_some (code : List Char) (m : Module) :
    parseAction code = some m ↔ Lexical actionTokens m ∧ Grammatical m ∧ renderModule m = code := by
  constructor
  · intro h
    unfold parseAction at h
    split at h
    · rename_i frame l hread
      split at h
      · rename_i hseparated
        cases h
        obtain ⟨hlexical, hrender⟩ := lexical_of_readModule hread
        refine ⟨hlexical, ?_, hrender⟩
        intro s hs l' hl'
        obtain rfl := List.mem_singleton.mp hs
        cases hl'
        exact (separatedBool_iff _ _).mp hseparated
      · cases h
    · cases h
  · rintro ⟨hlexical, hgrammatical, rfl⟩
    have hread := readModule_render hlexical
    obtain ⟨l, rfl, -⟩ := module_of_lexical hlexical
    have hseparated := hgrammatical _ List.mem_cons_self l rfl
    simp only [parseAction, hread, (separatedBool_iff _ _).mpr hseparated, if_true]

def actionParser : JsParser where
  toTokens := actionTokens
  parse := parseAction
  parse_eq_some := parseAction_eq_some
  unambiguous m m' hm hm' hrender := by
    have hread := readModule_render hm
    rw [hrender, readModule_render hm'] at hread
    exact (Option.some_inj.mp hread).symm
  comment_slash text htext := False.elim htext
  name_property frames frame id hprogram hframe hid := by
    obtain rfl : frames = [.call actionFrame] := hprogram
    obtain rfl : frame = actionFrame := by simpa using hframe
    obtain rfl : "a" = id := Option.some_inj.mp hid
    exact List.mem_cons_of_mem _ List.mem_cons_self
  id_paren frames frame id hprogram hframe hid := by
    obtain rfl : frames = [.call actionFrame] := hprogram
    obtain rfl : frame = actionFrame := by simpa using hframe
    obtain rfl : "a" = id := Option.some_inj.mp hid
    decide

/-- `export const a = action(` with `{run}` or `{run,}`. -/
def runModule (comma : List Slot) : Module := [.call actionFrame ⟨.filled [] runProperty [], comma⟩]

theorem parse_runModule {comma : List Slot} (h : comma = [] ∨ comma = [.hole []]) :
    actionParser.parse (renderModule (runModule comma)) = some (runModule comma) := by
  have hslots : ∀ slot ∈ Slot.filled [] runProperty [] :: comma, slot.Lexical actionTokens := by
    refine List.forall_mem_cons.mpr ⟨⟨nofun, List.mem_cons_self, nofun⟩, ?_⟩
    rcases h with rfl | rfl
    · nofun
    · exact List.forall_mem_cons.mpr ⟨nofun, nofun⟩
  refine (parseAction_eq_some _ _).mpr ⟨⟨rfl, ?_⟩, ?_, rfl⟩
  · intro s hs l hl
    obtain rfl := List.mem_singleton.mp hs
    cases hl
    exact hslots
  · intro s hs l hl
    obtain rfl := List.mem_singleton.mp hs
    cases hl
    rcases h with rfl | rfl <;> trivial

theorem action_call (comma : List Slot) :
    sourceMightContainActionCall (renderModule (runModule comma)) = true := by
  have hrender : renderModule (runModule comma) = ("export const a = ".toList ++ "action(".toList) ++
      ((ObjectLiteral.mk (.filled [] runProperty []) comma).render ++ actionFrame.tail) := List.append_nil _
  unfold sourceMightContainActionCall contains
  rw [decide_eq_true_iff, hrender]
  exact ⟨_, _, rfl⟩

theorem runModule_match : matchFactoryExport actionFrame ["defineQueue"] = none ∧
    matchFactoryExport actionFrame ["httpTrigger", "cronTrigger"] = none := by
  decide

/-- The passes give `export const a = action(` with `{run, name: "a"}`. -/
theorem runModule_transformed : Transformed actionParser (renderModule (runModule [])) (runModule []) := by
  refine (transforms_iff actionParser _ _ (parse_runModule (.inl rfl))).mpr ?_
  intro frame l hmem
  obtain ⟨rfl, rfl⟩ : frame = actionFrame ∧ l = ⟨.filled [] runProperty [], []⟩ := by
    simpa [runModule] using hmem
  refine ⟨?_, ?_, ?_, ?_⟩
  · intro e _
    refine ⟨action_call [], ?_, ?_⟩
    · rintro ⟨t, ht⟩
      cases ht
    · intro p hp hzod
      obtain rfl := List.mem_singleton.mp hp
      exact absurd hzod (by decide)
  · intro e he
    rw [runModule_match.1] at he
    cases he
  · intro e he
    rw [runModule_match.2] at he
    cases he
  · intro e he
    rw [runModule_match.2] at he
    cases he

def commaNamed : Module :=
  [.call actionFrame ⟨.filled [] runProperty [], [.hole [], .filled [.space ' '] (nameProperty "a") []]⟩]

theorem named_comma (code : List Char) (hcall : sourceMightContainActionCall code = true) :
    (runModule [.hole []]).map (nameAction code) = commaNamed := by
  unfold nameAction
  rw [← ite_map, if_pos hcall]
  rfl

/-- The name is put behind the trailing comma with a comma of its own. -/
theorem trailing_comma_breaks :
    renderModule (runModule [.hole []]) = "export const a = action(\x7brun,\x7d);".toList ∧
    actionParser.parse (renderModule (runModule [.hole []])) = some (runModule [.hole []]) ∧
    (injectActionNames actionParser (renderModule (runModule [.hole []]))).map
        (·.getD (renderModule (runModule [.hole []]))) =
      some "export const a = action(\x7brun,, name: \"a\"\x7d);".toList ∧
    ¬ Transformed actionParser (renderModule (runModule [.hole []])) (runModule [.hole []]) := by
  have hparse := parse_runModule (.inr rfl : [Slot.hole []] = [] ∨ [Slot.hole []] = [.hole []])
  have hnamed := named_comma (renderModule (runModule [.hole []])) (action_call [.hole []])
  have hnot : ¬ Grammatical commaNamed := fun h => h _ List.mem_cons_self _ rfl
  refine ⟨rfl, hparse, ?_, ?_⟩
  · rw [injectActionNames_of_parse hparse, hnamed]
    rfl
  · rintro ⟨out, m', hout, -⟩
    rw [transforms_of_not_grammatical hparse (by rwa [hnamed])] at hout
    cases hout

end WorkflowEngine.Sdk
