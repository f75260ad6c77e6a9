import WorkflowEngine.Lib.JsonText
import WorkflowEngine.Runtime.ImapMessage

/-!
# Module sources with object literals

The concrete syntax of a module source as far as the build's transforms look at it: statements, the object
literal that is the first argument of an exported call, and its properties with what stands between them. The
parser of the bundler is a parameter: it gives the tree that the source renders.
-/

namespace WorkflowEngine.Sdk

open Lib
set_option autoImplicit false

/-! ## Between the properties -/

inductive Trivium where
  | space (c : Char)
  | comment (text : List Char)

abbrev Trivia := List Trivium

namespace Trivium

def render : Trivium → List Char
  | space c => [c]
  | comment text => text

def isSpace : Trivium → Bool
  | space _ => true
  | comment _ => false

end Trivium

def renderTrivia (t : Trivia) : List Char := t.flatMap Trivium.render

@[simp] theorem renderTrivia_append (s t : Trivia) : renderTrivia (s ++ t) = renderTrivia s ++ renderTrivia t :=
  List.flatMap_append

/-! ## Object literals -/

/-- The key node of a property; `other` are numbers, templates and all other expressions. -/
inductive Key where
  | identifier (name : String)
  | string (value : String)
  | other
  deriving DecidableEq

inductive Member where
  | spread
  | property (key : Key) (computed : Bool)
  deriving DecidableEq

structure Property where
  member : Member
  text : List Char
  deriving DecidableEq

/-- What stands between two commas of a literal; a hole has no property. -/
inductive Slot where
  | hole (trivia : Trivia)
  | filled (before : Trivia) (property : Property) (after : Trivia)

def Slot.property? : Slot → Option Property
  | .hole _ => none
  | .filled _ p _ => some p

@[simp] theorem filterMap_hole (t : Trivia) (rest : List Slot) :
    (Slot.hole t :: rest).filterMap Slot.property? = rest.filterMap Slot.property? := rfl

@[simp] theorem filterMap_filled (b : Trivia) (p : Property) (a : Trivia) (rest : List Slot) :
    (Slot.filled b p a :: rest).filterMap Slot.property? = p :: rest.filterMap Slot.property? := rfl

def Slot.render : Slot → List Char
  | .hole t => renderTrivia t
  | .filled b p a => renderTrivia b ++ (p.text ++ renderTrivia a)

def renderRest (rest : List Slot) : List Char := rest.flatMap fun s => ',' :: s.render

structure ObjectLiteral where
  first : Slot
  rest : List Slot

namespace ObjectLiteral

def slots (l : ObjectLiteral) : List Slot := l.first :: l.rest

def properties (l : ObjectLiteral) : List Property := l.slots.filterMap Slot.property?

def inner (l : ObjectLiteral) : List Char := l.first.render ++ renderRest l.rest

def render (l : ObjectLiteral) : List Char := '{' :: (l.inner ++ ['}'])

end ObjectLiteral

/-- Only the last slot may be a hole: it is a trailing comma or an empty literal. -/
def Separated : Slot → List Slot → Prop
  | _, [] => True
  | .hole _, _ :: _ => False
  | .filled _ _ _, s :: rest => Separated s rest

/-! ## Statements -/

inductive DeclarationKind where
  | const
  | let
  | var
  deriving DecidableEq

/-- An exported variable declaration whose first declarator is initialised by a call with an object literal as
its first argument: the text up to the literal and from it on, and what the declaration says. `id` is `none` for
a pattern, `callee` for anything but an identifier. -/
structure ExportedCall where
  head : List Char
  tail : List Char
  kind : DeclarationKind
  declarations : Nat
  id : Option String
  callee : Option String

inductive Statement where
  | other (text : List Char)
  | call (frame : ExportedCall) (literal : ObjectLiteral)

/-- A statement without its literal. -/
inductive Frame where
  | other (text : List Char)
  | call (frame : ExportedCall)

namespace Statement

def frame : Statement → Frame
  | other text => .other text
  | call frame _ => .call frame

def literal? : Statement → Option ObjectLiteral
  | other _ => none
  | call _ literal => some literal

def render : Statement → List Char
  | other text => text
  | call frame literal => frame.head ++ (literal.render ++ frame.tail)

end Statement

abbrev Module := List Statement

def renderModule (m : Module) : List Char := m.flatMap Statement.render

def Grammatical (m : Module) : Prop :=
  ∀ s ∈ m, ∀ l, s.literal? = some l → Separated l.first l.rest

/-! ## The parser -/

/-- The property that is injected. -/
def nameProperty (id : String) : Property where
  member := .property (.identifier "name") false
  text := ['n', 'a', 'm', 'e', ':', ' '] ++ printString id

/-- Which texts are comments, properties of their kind, and the frames of a program. -/
structure Tokens where
  IsComment : List Char → Prop
  IsProperty : Property → Prop
  IsProgram : List Frame → Prop

section Lexical
variable (t : Tokens)

def Trivium.Lexical : Trivium → Prop
  | .space c => Runtime.Imap.isWhitespace c = true
  | .comment text => t.IsComment text

def Slot.Lexical : Slot → Prop
  | .hole trivia => ∀ x ∈ trivia, x.Lexical t
  | .filled before property after =>
    (∀ x ∈ before, x.Lexical t) ∧ t.IsProperty property ∧ ∀ x ∈ after, x.Lexical t

/-- The parts of the module are what they are said to be, whether or not its commas are right. -/
structure Lexical (m : Module) : Prop where
  program : t.IsProgram (m.map Statement.frame)
  slots : ∀ s ∈ m, ∀ l, s.literal? = some l → ∀ slot ∈ l.slots, slot.Lexical t

end Lexical

/-- The parser, with what the transforms rely on: it gives the tree of exactly the sources whose commas are
right, and a source has one reading. -/
structure JsParser extends Tokens where
  parse : List Char → Option Module
  parse_eq_some : ∀ code m, parse code = some m ↔ Lexical toTokens m ∧ Grammatical m ∧ renderModule m = code
  unambiguous : ∀ m m', Lexical toTokens m → Lexical toTokens m' → renderModule m = renderModule m' → m = m'
  comment_slash : ∀ text, IsComment text → text.head? = some '/'
  name_property : ∀ frames frame id, IsProgram frames → Frame.call frame ∈ frames → frame.id = some id →
    IsProperty (nameProperty id)
  id_paren : ∀ frames frame id, IsProgram frames → Frame.call frame ∈ frames → frame.id = some id →
    '(' ∉ id.toList

namespace JsParser
variable {G : JsParser} {m : Module}

theorem parse_render (hlexical : Lexical G.toTokens m) (hgrammatical : Grammatical m) :
    G.parse (renderModule m) = some m := (G.parse_eq_some _ _).mpr ⟨hlexical, hgrammatical, rfl⟩

/-- A literal with a hole before its last comma is a syntax error. -/
theorem parse_render_eq_none (hlexical : Lexical G.toTokens m) (hgrammatical : ¬ Grammatical m) :
    G.parse (renderModule m) = none := by
  cases hparse : G.parse (renderModule m) with
  | none => rfl
  | some m' =>
    obtain ⟨hlexical', hgrammatical', hrender⟩ := (G.parse_eq_some _ _).mp hparse
    have hsame := G.unambiguous m' m hlexical' hlexical hrender
    subst hsame
    exact absurd hgrammatical' hgrammatical

end JsParser

/-! ## Node offsets -/

structure PropertyNode where
  member : Member
  start : Nat
  stop : Nat

structure ObjectExpression where
  start : Nat
  stop : Nat
  properties : List PropertyNode

def Slot.nodes (pos : Nat) : Slot → List PropertyNode
  | .hole _ => []
  | .filled b p _ =>
    [⟨p.member, pos + (renderTrivia b).length, pos + (renderTrivia b).length + p.text.length⟩]

/-- The nodes of slots of which the first begins at `pos`. -/
def propertyNodes : Nat → List Slot → List PropertyNode
  | _, [] => []
  | pos, s :: rest => s.nodes pos ++ propertyNodes (pos + s.render.length + 1) rest

/-- The node of a literal that begins at `pos`. -/
def ObjectLiteral.node (l : ObjectLiteral) (pos : Nat) : ObjectExpression :=
  ⟨pos, pos + l.render.length, propertyNodes (pos + 1) l.slots⟩

theorem members_propertyNodes (pos : Nat) (slots : List Slot) :
    (propertyNodes pos slots).map (·.member) = (slots.filterMap Slot.property?).map (·.member) := by
  induction slots generalizing pos with
  | nil => rfl
  | cons s rest ih =>
    cases s with
    | hole t => exact ih _
    | filled b p a => exact congrArg (p.member :: ·) (ih _)

theorem propertyNodes_bounds (pos : Nat) (slots : List Slot) :
    ∀ n ∈ propertyNodes pos slots, pos ≤ n.start ∧ n.start ≤ n.stop := by
  induction slots generalizing pos with
  | nil => nofun
  | cons s rest ih =>
    intro n hn
    rcases List.mem_append.mp hn with hn | hn
    · cases s with
      | hole t => cases hn
      | filled b p a =>
        obtain rfl := List.mem_singleton.mp hn
        simp
    · obtain ⟨hstart, hstop⟩ := ih _ n hn
      exact ⟨by omega, hstop⟩

end WorkflowEngine.Sdk
