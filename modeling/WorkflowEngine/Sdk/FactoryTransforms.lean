import Mathlib.Data.List.Infix
import WorkflowEngine.Lib.SourceEdits
import WorkflowEngine.Sdk.ObjectLiteral

/-!
# The factory transforms of the build

`injectActionNames`, `injectQueueNames` and `stripZodFactoryProperties`: edits of the source text by the offsets
of the parsed nodes. Each pass is compared with the rewriting of the tree that it stands for.
-/

namespace WorkflowEngine.Sdk

open Lib
set_option autoImplicit false

/-! ## Factory exports -/

structure FactoryExport where
  id : String
  factory : String
  deriving DecidableEq

/-- The export of a statement whose first argument is an object literal. -/
def matchFactoryExport (frame : ExportedCall) (factoryNames : List String) : Option FactoryExport :=
  if frame.kind ≠ .const ∨ frame.declarations ≠ 1 then none
  else
    match frame.id, frame.callee with
    | some id, some name => if name ∈ factoryNames then some ⟨id, name⟩ else none
    | _, _ => none

def zodFactories : List String := ["action", "httpTrigger", "cronTrigger"]

def contains (pattern : String) (code : List Char) : Bool := decide (pattern.toList <:+: code)

def sourceMightContainActionCall (code : List Char) : Bool := contains "action(" code

def sourceMightContainQueueCall (code : List Char) : Bool := contains "defineQueue(" code

def sourceMightContainFactoryCall (code : List Char) : Bool :=
  contains "action(" code || contains "httpTrigger(" code || contains "cronTrigger(" code ||
    contains "defineQueue(" code

/-! ## Property names -/

/-- It does not look at `computed`. -/
def propertyKeyName : Member → Option String
  | .spread => none
  | .property (.identifier name) _ => some name
  | .property (.string value) _ => some value
  | .property .other _ => none

def zodPropertyNames : List String := ["input", "output", "body", "responseBody"]

def isZodProperty (m : Member) : Bool :=
  match propertyKeyName m with
  | none => false
  | some name => zodPropertyNames.contains name

def objectHasNameProperty (obj : ObjectExpression) : Bool :=
  obj.properties.any fun p => propertyKeyName p.member = some "name"

/-! ## Edits -/

def injectNameIntoCall (obj : ObjectExpression) (idName : String) : List (Edit Char) :=
  let sep := if obj.properties.isEmpty then [] else [',', ' ']
  [⟨obj.stop - 1, obj.stop - 1, sep ++ (nameProperty idName).text⟩]

def injectNameIfMissing (obj : ObjectExpression) (idName : String) : List (Edit Char) :=
  if objectHasNameProperty obj then [] else injectNameIntoCall obj idName

def isTrailing (c : Char) : Bool := Runtime.Imap.isWhitespace c || c == ','

/-- Where the scan from `pos` stops, at `limit` at the latest. -/
def scanTrailing (code : List Char) (limit pos : Nat) : Nat :=
  pos + (((code.take limit).drop pos).takeWhile isTrailing).length

/-- Where the removal of a property ends, by the properties after it. -/
def removeEnd (code : List Char) (obj : ObjectExpression) (prop : PropertyNode) : List PropertyNode → Nat
  | next :: _ => next.start
  | [] => scanTrailing code (obj.stop - 1) prop.stop

def stripEdits (code : List Char) (obj : ObjectExpression) : List PropertyNode → List (Edit Char)
  | [] => []
  | prop :: props =>
    if isZodProperty prop.member then ⟨prop.start, removeEnd code obj prop props, []⟩ :: stripEdits code obj props
    else stripEdits code obj props

def stripZodPropertiesFromCall (code : List Char) (obj : ObjectExpression) : List (Edit Char) :=
  stripEdits code obj obj.properties

/-! ## Passes -/

abbrev CallEdits := List Char → ObjectExpression → FactoryExport → List (Edit Char)

/-- The edits of a statement that begins at `pos`. -/
def Statement.edits (factoryNames : List String) (f : CallEdits) (code : List Char) (pos : Nat) :
    Statement → List (Edit Char)
  | .other _ => []
  | .call frame literal =>
    match matchFactoryExport frame factoryNames with
    | none => []
    | some e => f code (literal.node (pos + frame.head.length)) e

/-- The loop over `ast.body`. -/
def bodyEdits (factoryNames : List String) (f : CallEdits) (code : List Char) : Nat → Module → List (Edit Char)
  | _, [] => []
  | pos, s :: rest =>
    s.edits factoryNames f code pos ++ bodyEdits factoryNames f code (pos + s.render.length) rest

/-- The outer `none` is what the parser throws, the inner one an unchanged source. -/
def runPass (G : JsParser) (mightContain : List Char → Bool) (factoryNames : List String) (f : CallEdits)
    (code : List Char) : Option (Option (List Char)) :=
  if mightContain code then
    (G.parse code).map fun body =>
      let edits := bodyEdits factoryNames f code 0 body
      if edits.isEmpty then none else some (applyEdits 0 code edits)
  else some none

section Passes
variable (G : JsParser) (code : List Char)

def injectActionNames : Option (Option (List Char)) :=
  runPass G sourceMightContainActionCall ["action"] (fun _ obj e => injectNameIntoCall obj e.id) code

def injectQueueNames : Option (Option (List Char)) :=
  runPass G sourceMightContainQueueCall ["defineQueue"] (fun _ obj e => injectNameIfMissing obj e.id) code

def stripZodFactoryProperties : Option (Option (List Char)) :=
  runPass G sourceMightContainFactoryCall zodFactories (fun code obj _ => stripZodPropertiesFromCall code obj) code

/-- The three passes in turn, each on what the one before gives. -/
def transforms : Option (List Char) := do
  let named ← (injectActionNames G code).map (·.getD code)
  let queued ← (injectQueueNames G named).map (·.getD named)
  (stripZodFactoryProperties G queued).map (·.getD queued)

end Passes

/-! ## What the passes stand for -/

/-- The name of a property whose key is not computed. -/
def staticName : Member → Option String
  | .property (.identifier name) false => some name
  | .property (.string value) false => some value
  | _ => none

def isStaticZod (m : Member) : Bool :=
  match staticName m with
  | none => false
  | some name => zodPropertyNames.contains name

/-- The properties that the literal of an export is to have. -/
def expectedProperties (frame : ExportedCall) (properties : List Property) : List Property :=
  match matchFactoryExport frame ["action", "defineQueue", "httpTrigger", "cronTrigger"] with
  | none => properties
  | some e =>
    if e.factory = "action" then (properties.filter fun p => !isStaticZod p.member) ++ [nameProperty e.id]
    else if e.factory = "defineQueue" then
      if properties.any fun p => staticName p.member = some "name" then properties
      else properties ++ [nameProperty e.id]
    else properties.filter fun p => !isStaticZod p.member

/-- A statement and what it is to become: only the properties of a literal differ. -/
inductive Becomes : Statement → Statement → Prop
  | other (text : List Char) : Becomes (.other text) (.other text)
  | call (frame : ExportedCall) (l l' : ObjectLiteral)
    (h : l'.properties = expectedProperties frame l.properties) : Becomes (.call frame l) (.call frame l')

/-- The passes give a source that parses, and its tree is the expected one. -/
def Transformed (G : JsParser) (code : List Char) (m : Module) : Prop :=
  ∃ out m', transforms G code = some out ∧ G.parse out = some m' ∧ List.Forall₂ Becomes m m'

/-! ## Edits of the text and rewriting of the tree -/

def Statement.rewrite (factoryNames : List String) (g : FactoryExport → ObjectLiteral → ObjectLiteral) :
    Statement → Statement
  | .other text => .other text
  | .call frame literal =>
    match matchFactoryExport frame factoryNames with
    | none => .call frame literal
    | some e => .call frame (g e literal)

/-- The edits of one literal stay within it and give the text of its image. -/
structure Rewrites (f : CallEdits) (g : FactoryExport → ObjectLiteral → ObjectLiteral)
    (Valid : ObjectLiteral → Prop) : Prop where
  bounds : ∀ code (l : ObjectLiteral) pos e, ∀ ed ∈ f code (l.node pos) e, pos ≤ ed.start ∧ ed.start ≤ ed.stop
  replaces : ∀ pre post (l : ObjectLiteral) e later, Valid l →
    (∀ ed ∈ later, pre.length + l.render.length ≤ ed.start ∧ ed.start ≤ ed.stop) →
    applyEdits pre.length (l.render ++ post) (f (pre ++ (l.render ++ post)) (l.node pre.length) e ++ later) =
      (g e l).render ++ applyEdits (pre.length + l.render.length) post later

section Rewrites
variable {factoryNames : List String} {f : CallEdits} {g : FactoryExport → ObjectLiteral → ObjectLiteral}
  {Valid : ObjectLiteral → Prop}

theorem Rewrites.statement_bounds (h : Rewrites f g Valid) (code : List Char) (pos : Nat) (s : Statement) :
    ∀ ed ∈ s.edits factoryNames f code pos, pos ≤ ed.start ∧ ed.start ≤ ed.stop := by
  intro ed hed
  cases s with
  | other text => cases hed
  | call frame literal =>
    simp only [Statement.edits] at hed
    cases hmatch : matchFactoryExport frame factoryNames with
    | none =>
      rw [hmatch] at hed
      cases hed
    | some e =>
      rw [hmatch] at hed
      obtain ⟨hstart, hstop⟩ := h.bounds code literal _ e ed hed
      exact ⟨by omega, hstop⟩

theorem Rewrites.body_bounds (h : Rewrites f g Valid) (code : List Char) (pos : Nat) (m : Module) :
    ∀ ed ∈ bodyEdits factoryNames f code pos m, pos ≤ ed.start ∧ ed.start ≤ ed.stop := by
  induction m generalizing pos with
  | nil => nofun
  | cons s rest ih =>
    intro ed hed
    rcases List.mem_append.mp hed with hed | hed
    · exact h.statement_bounds code pos s ed hed
    · obtain ⟨hstart, hstop⟩ := ih _ ed hed
      exact ⟨by omega, hstop⟩

theorem Rewrites.statement (h : Rewrites f g Valid) (pre post : List Char) (s : Statement)
    (later : List (Edit Char)) (hvalid : ∀ l, s.literal? = some l → Valid l)
    (hlater : ∀ ed ∈ later, pre.length + s.render.length ≤ ed.start ∧ ed.start ≤ ed.stop) :
    applyEdits pre.length (s.render ++ post)
        (s.edits factoryNames f (pre ++ (s.render ++ post)) pre.length ++ later) =
      (s.rewrite factoryNames g).render ++ applyEdits (pre.length + s.render.length) post later := by
  cases s with
  | other text => exact applyEdits_append hlater
  | call frame literal =>
    cases hmatch : matchFactoryExport frame factoryNames with
    | none =>
      simp only [Statement.edits, Statement.rewrite, hmatch, List.nil_append]
      exact applyEdits_append hlater
    | some e =>
      simp only [Statement.edits, Statement.rewrite, hmatch, Statement.render, List.append_assoc] at hlater ⊢
      have hlength : pre.length + (frame.head ++ (literal.render ++ frame.tail)).length =
          pre.length + frame.head.length + literal.render.length + frame.tail.length := by
        simp only [List.length_append]
        omega
      rw [hlength] at hlater ⊢
      have hpre : (pre ++ frame.head).length = pre.length + frame.head.length := List.length_append
      have hreplaces := h.replaces (pre ++ frame.head) (frame.tail ++ post) literal e later (hvalid literal rfl)
        (by
          intro ed hed
          obtain ⟨hstart, hstop⟩ := hlater ed hed
          exact ⟨by omega, hstop⟩)
      rw [hpre, List.append_assoc] at hreplaces
      rw [applyEdits_append, hreplaces, applyEdits_append hlater]
      intro ed hed
      rcases List.mem_append.mp hed with hed | hed
      · exact h.bounds _ literal _ e ed hed
      · obtain ⟨hstart, hstop⟩ := hlater ed hed
        exact ⟨by omega, hstop⟩

/-- The edits of all statements give the source of the rewritten module. -/
theorem Rewrites.body (h : Rewrites f g Valid) (pre : List Char) (m : Module)
    (hvalid : ∀ s ∈ m, ∀ l, s.literal? = some l → Valid l) :
    applyEdits pre.length (renderModule m) (bodyEdits factoryNames f (pre ++ renderModule m) pre.length m) =
      renderModule (m.map (Statement.rewrite factoryNames g)) := by
  induction m generalizing pre with
  | nil => rfl
  | cons s rest ih =>
    obtain ⟨hfirst, hrest⟩ := List.forall_mem_cons.mp hvalid
    have hih := ih (pre ++ s.render) hrest
    rw [List.length_append, List.append_assoc] at hih
    have hrender : renderModule (s :: rest) = s.render ++ renderModule rest := rfl
    rw [hrender, bodyEdits, h.statement pre _ s _ hfirst (h.body_bounds _ _ rest), hih]
    rfl

end Rewrites

/-! ## The injected name -/

namespace ObjectLiteral

/-- A new last property. After a trailing comma it leaves a hole. -/
def addName (id : String) (l : ObjectLiteral) : ObjectLiteral :=
  match l.first, l.rest with
  | .hole t, [] => ⟨.filled t (nameProperty id) [], []⟩
  | first, rest => ⟨first, rest ++ [.filled [.space ' '] (nameProperty id) []]⟩

def hasName (l : ObjectLiteral) : Bool := l.properties.any fun p => propertyKeyName p.member = some "name"

def addNameIfMissing (id : String) (l : ObjectLiteral) : ObjectLiteral := if l.hasName then l else l.addName id

/-- The text that is inserted before the closing brace. -/
def nameText (id : String) (l : ObjectLiteral) : List Char :=
  (if l.properties.isEmpty then [] else [',', ' ']) ++ (nameProperty id).text

theorem nodes_isEmpty (l : ObjectLiteral) (pos : Nat) :
    (l.node pos).properties.isEmpty = l.properties.isEmpty := by
  have hmembers := congrArg List.isEmpty (members_propertyNodes (pos + 1) l.slots)
  rw [List.isEmpty_map, List.isEmpty_map] at hmembers
  exact hmembers

theorem objectHasNameProperty_node (l : ObjectLiteral) (pos : Nat) :
    objectHasNameProperty (l.node pos) = l.hasName := by
  have hmembers := congrArg (List.any · fun m => propertyKeyName m = some "name")
    (members_propertyNodes (pos + 1) l.slots)
  simp only [List.any_map] at hmembers
  exact hmembers

theorem length_render (l : ObjectLiteral) : l.render.length = l.inner.length + 2 := by
  simp [render]

theorem injectNameIntoCall_node (l : ObjectLiteral) (pos : Nat) (id : String) :
    injectNameIntoCall (l.node pos) id = [⟨pos + 1 + l.inner.length, pos + 1 + l.inner.length, l.nameText id⟩] := by
  have hstop : (l.node pos).stop - 1 = pos + 1 + l.inner.length := by
    have hlength := l.length_render
    simp only [node]
    omega
  simp only [injectNameIntoCall, hstop, nodes_isEmpty, nameText]

theorem render_addName (id : String) {l : ObjectLiteral} (h : Separated l.first l.rest) :
    (l.addName id).render = '{' :: (l.inner ++ (l.nameText id ++ ['}'])) := by
  obtain ⟨first, rest⟩ := l
  cases first with
  | hole t =>
    cases rest with
    | nil => simp [addName, render, inner, nameText, properties, slots, Slot.property?, Slot.render, renderRest,
        renderTrivia]
    | cons s rest => exact False.elim h
  | filled b p a =>
    simp [addName, render, inner, nameText, properties, slots, Slot.property?, Slot.render, renderRest,
      renderTrivia, Trivium.render]

end ObjectLiteral

theorem applyEdits_nameText (pre post : List Char) (l : ObjectLiteral) (text : List Char) (later : List (Edit Char))
    (hlater : ∀ ed ∈ later, pre.length + l.render.length ≤ ed.start ∧ ed.start ≤ ed.stop) :
    applyEdits pre.length (l.render ++ post)
        (⟨pre.length + 1 + l.inner.length, pre.length + 1 + l.inner.length, text⟩ :: later) =
      '{' :: (l.inner ++ (text ++ ['}'])) ++ applyEdits (pre.length + l.render.length) post later := by
  have hsplit : l.render ++ post = ('{' :: l.inner) ++ ('}' :: post) := by simp [ObjectLiteral.render]
  have hlength := l.length_render
  have hopen : pre.length + ('{' :: l.inner).length = pre.length + 1 + l.inner.length := by
    rw [List.length_cons]
    omega
  have hclose : pre.length + 1 + l.inner.length + ['}'].length = pre.length + l.render.length := by
    rw [List.length_singleton]
    omega
  rw [hsplit, applyEdits_append, hopen, applyEdits_insert]
  · have hlast : applyEdits (pre.length + 1 + l.inner.length) (['}'] ++ post) later =
        ['}'] ++ applyEdits (pre.length + 1 + l.inner.length + ['}'].length) post later :=
      applyEdits_append (by rwa [hclose])
    rw [hclose] at hlast
    rw [List.singleton_append] at hlast
    rw [hlast]
    simp
  · intro ed hed
    rw [hopen]
    rcases List.mem_cons.mp hed with rfl | hed
    · exact ⟨Nat.le_refl _, Nat.le_refl _⟩
    · obtain ⟨hstart, hstop⟩ := hlater ed hed
      exact ⟨by omega, hstop⟩

theorem rewrites_addName : Rewrites (fun _ obj e => injectNameIntoCall obj e.id)
    (fun e l => l.addName e.id) (fun l => Separated l.first l.rest) where
  bounds := by
    intro code l pos e ed hed
    rw [ObjectLiteral.injectNameIntoCall_node, List.mem_singleton] at hed
    subst hed
    refine ⟨?_, Nat.le_refl _⟩
    show pos ≤ pos + 1 + l.inner.length
    omega
  replaces := by
    intro pre post l e later hvalid hlater
    rw [ObjectLiteral.injectNameIntoCall_node, ObjectLiteral.render_addName e.id hvalid]
    exact applyEdits_nameText pre post l _ later hlater

theorem rewrites_addNameIfMissing : Rewrites (fun _ obj e => injectNameIfMissing obj e.id)
    (fun e l => l.addNameIfMissing e.id) (fun l => Separated l.first l.rest) where
  bounds := by
    intro code l pos e ed hed
    simp only [injectNameIfMissing] at hed
    split at hed
    · cases hed
    · exact rewrites_addName.bounds code l pos e ed hed
  replaces := by
    intro pre post l e later hvalid hlater
    simp only [injectNameIfMissing, ObjectLiteral.objectHasNameProperty_node, ObjectLiteral.addNameIfMissing]
    split
    · exact applyEdits_append hlater
    · exact rewrites_addName.replaces pre post l e later hvalid hlater

/-! ## The removed properties -/

/-- The literal without its Zod properties, from a first property on. After the last property the scan takes
the whitespace, and the trailing comma unless a comment stands before it. -/
def stripFrom : Trivia → Property → Trivia → List Slot → ObjectLiteral
  | b, p, a, [] =>
    if isZodProperty p.member then ⟨.hole (b ++ a.dropWhile Trivium.isSpace), []⟩ else ⟨.filled b p a, []⟩
  | b, p, a, .hole t :: rest =>
    if isZodProperty p.member then
      if a.all Trivium.isSpace then ⟨.hole (b ++ t.dropWhile Trivium.isSpace), rest⟩
      else ⟨.hole (b ++ a.dropWhile Trivium.isSpace), .hole t :: rest⟩
    else ⟨.filled b p a, .hole t :: rest⟩
  | b, p, a, .filled b' p' a' :: rest =>
    if isZodProperty p.member then stripFrom b p' a' rest
    else ⟨.filled b p a, (stripFrom b' p' a' rest).slots⟩

def ObjectLiteral.strip (l : ObjectLiteral) : ObjectLiteral :=
  match l.first with
  | .hole _ => l
  | .filled b p a => stripFrom b p a l.rest

theorem propertyNodes_filled (pos : Nat) (b : Trivia) (p : Property) (a : Trivia) (rest : List Slot) :
    propertyNodes pos (.filled b p a :: rest) =
      propertyNodes (pos + (renderTrivia b).length) (.filled [] p a :: rest) := by
  have hnext : pos + (renderTrivia b ++ (p.text ++ renderTrivia a)).length + 1 =
      pos + (renderTrivia b).length + (p.text ++ renderTrivia a).length + 1 := by
    rw [List.length_append]
    omega
  simp only [propertyNodes, Slot.nodes, Slot.render, hnext]
  rfl

theorem propertyNodes_pairwise (pos : Nat) (slots : List Slot) :
    (propertyNodes pos slots).Pairwise fun m n => m.start ≤ n.start := by
  induction slots generalizing pos with
  | nil => exact .nil
  | cons s rest ih =>
    cases s with
    | hole t => exact ih _
    | filled b p a =>
      refine .cons ?_ (ih _)
      intro n hn
      have hstart := (propertyNodes_bounds _ rest n hn).1
      simp only [Slot.render, List.length_append] at hstart ⊢
      omega

theorem le_scanTrailing (code : List Char) (limit pos : Nat) : pos ≤ scanTrailing code limit pos :=
  Nat.le_add_right _ _

theorem stripEdits_bounds (code : List Char) (obj : ObjectExpression) (pos : Nat) {props : List PropertyNode}
    (hbounds : ∀ n ∈ props, pos ≤ n.start ∧ n.start ≤ n.stop)
    (horder : props.Pairwise fun m n => m.start ≤ n.start) :
    ∀ ed ∈ stripEdits code obj props, pos ≤ ed.start ∧ ed.start ≤ ed.stop := by
  induction props with
  | nil => nofun
  | cons prop props ih =>
    obtain ⟨hfirst, hrest⟩ := List.forall_mem_cons.mp hbounds
    obtain ⟨hnext, horder⟩ := List.pairwise_cons.mp horder
    intro ed hed
    unfold stripEdits at hed
    split at hed
    · rcases List.mem_cons.mp hed with rfl | hed
      · refine ⟨hfirst.1, ?_⟩
        cases props with
        | nil => exact hfirst.2.trans (le_scanTrailing _ _ _)
        | cons next props => exact hnext next List.mem_cons_self
      · exact ih hrest horder ed hed
    · exact ih hrest horder ed hed

section Scan
variable {t : Tokens} (hslash : ∀ text, t.IsComment text → text.head? = some '/')
include hslash

/-- The scan takes leading whitespace and stops at a comment. -/
theorem dropWhile_renderTrivia_append (more : List Char) (a : Trivia) (ha : ∀ x ∈ a, x.Lexical t) :
    (renderTrivia a ++ more).dropWhile isTrailing =
      if a.all Trivium.isSpace then more.dropWhile isTrailing
      else renderTrivia (a.dropWhile Trivium.isSpace) ++ more := by
  induction a with
  | nil => rfl
  | cons x a ih =>
    obtain ⟨hx, hrest⟩ := List.forall_mem_cons.mp ha
    cases x with
    | space c =>
      have hc : isTrailing c = true := Bool.or_eq_true_iff.mpr (.inl hx)
      have hrender : renderTrivia (.space c :: a) ++ more = c :: (renderTrivia a ++ more) := rfl
      rw [hrender, List.dropWhile_cons_of_pos hc, ih hrest]
      rfl
    | comment text =>
      obtain ⟨body, rfl⟩ := List.head?_eq_some_iff.mp (hslash text hx)
      have hstop : ¬ isTrailing '/' = true := by decide
      have hrender : renderTrivia (.comment ('/' :: body) :: a) ++ more = '/' :: (body ++ renderTrivia a ++ more) := rfl
      rw [hrender, List.dropWhile_cons_of_neg hstop, ← hrender]
      rfl

theorem dropWhile_renderTrivia (a : Trivia) (ha : ∀ x ∈ a, x.Lexical t) :
    (renderTrivia a).dropWhile isTrailing = renderTrivia (a.dropWhile Trivium.isSpace) := by
  have h := dropWhile_renderTrivia_append hslash [] a ha
  rw [List.append_nil, List.append_nil] at h
  rw [h]
  split
  · rename_i hall
    rw [List.dropWhile_eq_nil_iff.mpr (List.all_eq_true.mp hall)]
    rfl
  · rfl

/-- What the scan leaves of the text after the last property. -/
theorem inner_stripFrom_last {p : Property} (hzod : isZodProperty p.member = true) (b a : Trivia)
    {rest : List Slot} (hlast : Separated (.filled [] p a) rest) (hnodes : rest.filterMap Slot.property? = [])
    (ha : ∀ x ∈ a, x.Lexical t) (hrest : ∀ slot ∈ rest, slot.Lexical t) :
    (stripFrom b p a rest).inner =
      renderTrivia b ++ (renderTrivia a ++ renderRest rest).dropWhile isTrailing := by
  cases rest with
  | nil =>
    have hdrop := dropWhile_renderTrivia hslash a ha
    simp [stripFrom, hzod, ObjectLiteral.inner, Slot.render, renderRest, hdrop]
  | cons s rest =>
    cases s with
    | filled b' p' a' => cases hnodes
    | hole trailing =>
      cases rest with
      | cons s' rest => exact False.elim hlast
      | nil =>
        have htrailing := dropWhile_renderTrivia hslash trailing (hrest _ List.mem_cons_self)
        have hcomma : (renderRest [.hole trailing]).dropWhile isTrailing =
            renderTrivia (trailing.dropWhile Trivium.isSpace) := by
          rw [← htrailing]
          simp [renderRest, Slot.render, isTrailing]
        rw [dropWhile_renderTrivia_append hslash _ a ha, hcomma]
        simp only [stripFrom, hzod, if_true]
        split
        · simp [ObjectLiteral.inner, Slot.render, renderRest]
        · simp [ObjectLiteral.inner, Slot.render]

end Scan

theorem scanTrailing_at (pre text more post : List Char) :
    scanTrailing (pre ++ (text ++ more ++ post)) (pre.length + (text ++ more).length) (pre.length + text.length) =
      pre.length + text.length + (more.takeWhile isTrailing).length := by
  have htake : (pre ++ (text ++ more ++ post)).take (pre.length + (text ++ more).length) = pre ++ (text ++ more) := by
    rw [List.take_length_add_append, List.take_left']
    rfl
  rw [scanTrailing, htake, List.drop_length_add_append, List.drop_left]

theorem propertyNodes_single (pos : Nat) (p : Property) (a : Trivia) {rest : List Slot}
    (hnodes : rest.filterMap Slot.property? = []) :
    propertyNodes pos (.filled [] p a :: rest) = [⟨p.member, pos, pos + p.text.length⟩] := by
  have hmembers := members_propertyNodes (pos + (p.text ++ renderTrivia a).length + 1) rest
  rw [hnodes, List.map_nil, List.map_eq_nil_iff] at hmembers
  simp only [propertyNodes, Slot.render, Slot.nodes]
  exact congrArg (⟨p.member, pos, pos + p.text.length⟩ :: ·) hmembers

theorem separated_filled {b b' a a' : Trivia} {p p' : Property} {rest : List Slot} :
    Separated (.filled b p a) rest ↔ Separated (.filled b' p' a') rest := by
  cases rest <;> exact Iff.rfl

theorem renderRest_slots (l : ObjectLiteral) : renderRest l.slots = ',' :: l.inner := rfl

theorem ObjectLiteral.inner_mk (first : Slot) (rest : List Slot) :
    (⟨first, rest⟩ : ObjectLiteral).inner = first.render ++ renderRest rest := rfl

section Strip
variable {t : Tokens} (hslash : ∀ text, t.IsComment text → text.head? = some '/')
include hslash

theorem applyEdits_stripFrom_last {obj : ObjectExpression} {rest : List Slot} {p : Property} {a : Trivia}
    (pre post : List Char) (hlast : Separated (.filled [] p a) rest)
    (hnodes : rest.filterMap Slot.property? = []) (ha : ∀ x ∈ a, x.Lexical t)
    (hrest : ∀ slot ∈ rest, slot.Lexical t)
    (hstop : obj.stop - 1 = pre.length + (p.text ++ (renderTrivia a ++ renderRest rest)).length) :
    ∃ kept, (∀ b, (stripFrom b p a rest).inner = renderTrivia b ++ kept) ∧
      ∀ later, (∀ ed ∈ later, pre.length + (p.text ++ (renderTrivia a ++ renderRest rest)).length ≤ ed.start ∧
          ed.start ≤ ed.stop) →
        applyEdits pre.length (p.text ++ (renderTrivia a ++ renderRest rest) ++ post)
            (stripEdits (pre ++ (p.text ++ (renderTrivia a ++ renderRest rest) ++ post)) obj
              (propertyNodes pre.length (.filled [] p a :: rest)) ++ later) =
          kept ++ applyEdits (pre.length + (p.text ++ (renderTrivia a ++ renderRest rest)).length) post later := by
  cases hzod : isZodProperty p.member with
  | false =>
    refine ⟨p.text ++ (renderTrivia a ++ renderRest rest), ?_, ?_⟩
    · intro b
      cases rest with
      | nil => simp [stripFrom, hzod, ObjectLiteral.inner, Slot.render]
      | cons s rest =>
        cases s with
        | hole trailing => simp [stripFrom, hzod, ObjectLiteral.inner, Slot.render]
        | filled b' p' a' => cases hnodes
    · intro later hlater
      rw [propertyNodes_single _ _ _ hnodes]
      simp only [stripEdits, hzod, Bool.false_eq_true, if_false, List.nil_append]
      exact applyEdits_append hlater
  | true =>
    refine ⟨(renderTrivia a ++ renderRest rest).dropWhile isTrailing, ?_, ?_⟩
    · intro b
      exact inner_stripFrom_last hslash hzod b a hlast hnodes ha hrest
    · intro later hlater
      rw [propertyNodes_single _ _ _ hnodes]
      simp only [stripEdits, hzod, if_true, removeEnd, hstop, scanTrailing_at, List.singleton_append]
      generalize hmore : renderTrivia a ++ renderRest rest = more at hlater ⊢
      have htaken : p.text ++ more ++ post =
          (p.text ++ more.takeWhile isTrailing) ++ (more.dropWhile isTrailing ++ post) := by
        rw [← List.append_assoc (p.text ++ more.takeWhile isTrailing),
          List.append_assoc p.text (more.takeWhile isTrailing), List.takeWhile_append_dropWhile]
      have hlength : pre.length + (p.text ++ more.takeWhile isTrailing).length +
          (more.dropWhile isTrailing).length = pre.length + (p.text ++ more).length := by
        have hparts := congrArg List.length (List.takeWhile_append_dropWhile (p := isTrailing) (l := more))
        simp only [List.length_append] at hparts ⊢
        omega
      rw [htaken, Nat.add_assoc, ← List.length_append, applyEdits_replace, List.nil_append, applyEdits_append, hlength]
      rwa [hlength]

/-- From the beginning of a property on, the edits keep what the stripped literal keeps. -/
theorem applyEdits_stripFrom {obj : ObjectExpression} (rest : List Slot) (p : Property) (a : Trivia)
    (pre post : List Char) (hseparated : Separated (.filled [] p a) rest) (ha : ∀ x ∈ a, x.Lexical t)
    (hrest : ∀ slot ∈ rest, slot.Lexical t)
    (hstop : obj.stop - 1 = pre.length + (p.text ++ (renderTrivia a ++ renderRest rest)).length) :
    ∃ kept, (∀ b, (stripFrom b p a rest).inner = renderTrivia b ++ kept) ∧
      ∀ later, (∀ ed ∈ later, pre.length + (p.text ++ (renderTrivia a ++ renderRest rest)).length ≤ ed.start ∧
          ed.start ≤ ed.stop) →
        applyEdits pre.length (p.text ++ (renderTrivia a ++ renderRest rest) ++ post)
            (stripEdits (pre ++ (p.text ++ (renderTrivia a ++ renderRest rest) ++ post)) obj
              (propertyNodes pre.length (.filled [] p a :: rest)) ++ later) =
          kept ++ applyEdits (pre.length + (p.text ++ (renderTrivia a ++ renderRest rest)).length) post later := by
  induction rest generalizing p a pre with
  | nil => exact applyEdits_stripFrom_last hslash pre post hseparated rfl ha hrest hstop
  | cons s rest ih =>
    cases s with
    | hole trailing =>
      cases rest with
      | nil => exact applyEdits_stripFrom_last hslash pre post hseparated rfl ha hrest hstop
      | cons s rest => exact False.elim hseparated
    | filled b' p' a' =>
      obtain ⟨⟨hb', hp', ha'⟩, hrest⟩ := List.forall_mem_cons.mp hrest
      -- the text from this property to the next one
      have hbody : p.text ++ (renderTrivia a ++ renderRest (.filled b' p' a' :: rest)) =
          (p.text ++ (renderTrivia a ++ ',' :: renderTrivia b')) ++
            (p'.text ++ (renderTrivia a' ++ renderRest rest)) := by
        simp [renderRest, Slot.render]
      rw [hbody] at hstop ⊢
      generalize hgap : p.text ++ (renderTrivia a ++ ',' :: renderTrivia b') = gap at hstop ⊢
      have hgaplength : (p.text ++ renderTrivia a).length + 1 + (renderTrivia b').length = gap.length := by
        rw [← hgap]
        simp only [List.length_append, List.length_cons]
        omega
      have hnodes : propertyNodes pre.length (.filled [] p a :: .filled b' p' a' :: rest) =
          ⟨p.member, pre.length, pre.length + p.text.length⟩ ::
            propertyNodes (pre ++ gap).length (.filled [] p' a' :: rest) := by
        have hnext := propertyNodes_filled (pre.length + (p.text ++ renderTrivia a).length + 1) b' p' a' rest
        rw [Nat.add_assoc, Nat.add_assoc, hgaplength, ← List.length_append] at hnext
        exact congrArg (⟨p.member, pre.length, pre.length + p.text.length⟩ :: ·) hnext
      obtain ⟨kept, hkept, hedits⟩ := ih p' a' (pre ++ gap) (separated_filled.mp hseparated) ha' hrest
        (by
          rw [hstop]
          simp only [List.length_append, Nat.add_assoc])
      generalize p'.text ++ (renderTrivia a' ++ renderRest rest) = body at hstop hedits ⊢
      have hlength : (pre ++ gap).length + body.length = pre.length + (gap ++ body).length := by
        rw [List.length_append, List.length_append, Nat.add_assoc]
      have hcode : pre ++ gap ++ (body ++ post) = pre ++ (gap ++ (body ++ post)) := by simp
      rw [hlength, hcode] at hedits
      have hbounds := stripEdits_bounds (pre ++ (gap ++ (body ++ post))) obj (pre ++ gap).length
        (propertyNodes_bounds _ _) (propertyNodes_pairwise (pre ++ gap).length (.filled [] p' a' :: rest))
      cases hzod : isZodProperty p.member with
      | false =>
        refine ⟨gap ++ kept, ?_, ?_⟩
        · intro b
          rw [← hgap]
          simp [stripFrom, hzod, ObjectLiteral.inner_mk, renderRest_slots, hkept, Slot.render]
        · intro later hlater
          rw [hnodes]
          simp only [stripEdits, hzod, Bool.false_eq_true, if_false]
          rw [List.append_assoc gap, applyEdits_append, ← List.length_append, hedits later hlater,
            List.append_assoc]
          intro ed hed
          rw [← List.length_append]
          rcases List.mem_append.mp hed with hed | hed
          · exact hbounds ed hed
          · obtain ⟨hstart, hend⟩ := hlater ed hed
            exact ⟨by omega, hend⟩
      | true =>
        refine ⟨kept, ?_, ?_⟩
        · intro b
          simp only [stripFrom, hzod, if_true, hkept]
        · intro later hlater
          rw [hnodes]
          have hend : removeEnd (pre ++ (gap ++ body ++ post)) obj
              ⟨p.member, pre.length, pre.length + p.text.length⟩
              (propertyNodes (pre ++ gap).length (.filled [] p' a' :: rest)) = pre.length + gap.length :=
            List.length_append
          simp only [stripEdits, hzod, if_true, hend, List.cons_append]
          rw [List.append_assoc gap, applyEdits_replace, List.nil_append, ← List.length_append, hedits later hlater]

/-- The literals that the parser gives. -/
structure Plain (t : Tokens) (l : ObjectLiteral) : Prop where
  separated : Separated l.first l.rest
  lexical : ∀ slot ∈ l.slots, slot.Lexical t

theorem rewrites_strip : Rewrites (fun code obj _ => stripZodPropertiesFromCall code obj)
    (fun _ l => l.strip) (Plain t) where
  bounds := by
    intro code l pos e ed hed
    obtain ⟨hstart, hend⟩ := stripEdits_bounds code (l.node pos) (pos + 1) (propertyNodes_bounds _ _)
      (propertyNodes_pairwise (pos + 1) l.slots) ed hed
    exact ⟨by omega, hend⟩
  replaces := by
    intro pre post l e later hvalid hlater
    obtain ⟨first, rest⟩ := l
    obtain ⟨hseparated, hlexical⟩ := hvalid
    cases first with
    | hole trailing =>
      cases rest with
      | nil => exact applyEdits_append hlater
      | cons s rest => exact False.elim hseparated
    | filled b p a =>
      obtain ⟨⟨hb, hp, ha⟩, hrest⟩ := List.forall_mem_cons.mp hlexical
      have hlength := ObjectLiteral.length_render ⟨.filled b p a, rest⟩
      have hinner : (⟨.filled b p a, rest⟩ : ObjectLiteral).inner =
          renderTrivia b ++ (p.text ++ (renderTrivia a ++ renderRest rest)) := by
        simp [ObjectLiteral.inner, Slot.render]
      have hopen : (pre ++ '{' :: renderTrivia b).length = pre.length + 1 + (renderTrivia b).length := by
        rw [List.length_append, List.length_cons]
        omega
      have hstop : (ObjectLiteral.node ⟨.filled b p a, rest⟩ pre.length).stop - 1 =
          (pre ++ '{' :: renderTrivia b).length + (p.text ++ (renderTrivia a ++ renderRest rest)).length := by
        have hparts := congrArg List.length hinner
        rw [List.length_append] at hparts
        simp only [ObjectLiteral.node]
        omega
      obtain ⟨kept, hkept, hedits⟩ := applyEdits_stripFrom hslash rest p a (pre ++ '{' :: renderTrivia b)
        ('}' :: post) (separated_filled.mp hseparated) ha hrest hstop
      have hstrip : (ObjectLiteral.strip ⟨.filled b p a, rest⟩).render =
          '{' :: (renderTrivia b ++ kept ++ ['}']) := by
        rw [← hkept b]
        rfl
      have hnodes : (ObjectLiteral.node ⟨.filled b p a, rest⟩ pre.length).properties =
          propertyNodes (pre ++ '{' :: renderTrivia b).length (.filled [] p a :: rest) := by
        rw [hopen]
        exact propertyNodes_filled (pre.length + 1) b p a rest
      have hrender : (⟨.filled b p a, rest⟩ : ObjectLiteral).render ++ post =
          ('{' :: renderTrivia b) ++ (p.text ++ (renderTrivia a ++ renderRest rest) ++ '}' :: post) := by
        rw [ObjectLiteral.render, hinner]
        simp
      have hparts := congrArg List.length hinner
      rw [List.length_append] at hparts
      generalize p.text ++ (renderTrivia a ++ renderRest rest) = body at hstop hedits hrender hparts
      have hclose : (pre ++ '{' :: renderTrivia b).length + body.length + ['}'].length =
          pre.length + (⟨.filled b p a, rest⟩ : ObjectLiteral).render.length := by
        rw [List.length_singleton]
        omega
      have hbounds := stripEdits_bounds (pre ++ ('{' :: renderTrivia b ++ (body ++ '}' :: post)))
        (ObjectLiteral.node ⟨.filled b p a, rest⟩ pre.length) (pre ++ '{' :: renderTrivia b).length
        (propertyNodes_bounds _ _)
        (propertyNodes_pairwise (pre ++ '{' :: renderTrivia b).length (.filled [] p a :: rest))
      have hlast : applyEdits ((pre ++ '{' :: renderTrivia b).length + body.length) (['}'] ++ post) later =
          ['}'] ++ applyEdits ((pre ++ '{' :: renderTrivia b).length + body.length + ['}'].length) post later :=
        applyEdits_append (by rwa [hclose])
      rw [hclose, List.singleton_append] at hlast
      have hkeeps := hedits later (by
        intro ed hed
        obtain ⟨hstart, hend⟩ := hlater ed hed
        rw [List.length_singleton] at hclose
        exact ⟨by omega, hend⟩)
      rw [hlast, List.append_assoc pre] at hkeeps
      simp only [stripZodPropertiesFromCall, hnodes, hrender, hstrip]
      rw [applyEdits_append, ← List.length_append, hkeeps]
      · simp
      · intro ed hed
        rw [← List.length_append]
        rcases List.mem_append.mp hed with hed | hed
        · exact hbounds ed hed
        · obtain ⟨hstart, hend⟩ := hlater ed hed
          rw [List.length_singleton] at hclose
          exact ⟨by omega, hend⟩

end Strip

end WorkflowEngine.Sdk
