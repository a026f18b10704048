import MetricTree.Tree.Scope
import MetricTree.Registry.Basic

namespace MetricTree

/-- Scopes that share a registry and the separator between the parts of a name. -/
structure Tree where
  separator : Text
  registry : Registry Text Scope

namespace Tree

/-- The scopes in the order in which they were first registered. -/
def scopes (t : Tree) : List Scope := t.registry.values.filterMap id

def identities (t : Tree) : List Text := t.registry.slots.keys

def scope? (t : Tree) (identity : Text) : Option Scope := t.registry.get? identity

/-- The tree with one root scope, and the identity of the root. -/
def ofRoot (separator stem : Text) (tags : Tags) : Text × Tree :=
  let root := Scope.fresh stem tags
  (root.identity, ⟨separator, (Registry.empty.settle root.identity (some root)).2⟩)

/-- Replaces a registered scope; its place in the order stays. -/
def putScope (t : Tree) (identity : Text) (s : Scope) : Tree :=
  { t with registry := ⟨t.registry.slots.insert identity (some s)⟩ }

/-- The scope of this identity, which the caller got from the tree. -/
def scope (t : Tree) (identity : Text) : Except Fault Scope :=
  (t.scope? identity).elim (throw (.keyMissing (Text.quoted identity))) pure

/-- Registers a scope of this stem and these tags, unless one stands in its place; the answer is the identity of the
one that stands there then. -/
def derive (t : Tree) (stem : Text) (tags : Tags) : Text × Tree :=
  let made := Scope.fresh stem tags
  let (settled, registry) := t.registry.settle made.identity (some made)
  ((settled.getD made).identity, { t with registry := registry })

/-- The scope with the same stem and these tags laid over its own. No tags lead to the scope itself. -/
def tagged (t : Tree) (identity : Text) (tags : Table Value Value) : Except Fault (Text × Tree) := do
  let s ← t.scope identity
  let extra ← Identity.checkTags tags
  return if extra.isEmpty then (identity, t) else t.derive s.stem (s.tags.overlay extra)

/-- The scope one name below, with the same tags. -/
def subScope (t : Tree) (identity : Text) (name : Value) : Except Fault (Text × Tree) := do
  let s ← t.scope identity
  let text ← Identity.checkName "scope name" false name
  return t.derive (s.qualify t.separator text) s.tags

/-- The full name of a metric or scope below a scope. -/
def qualify (t : Tree) (identity : Text) (name : Value) : Except Fault Value := do
  (← t.scope identity).qualifyValue t.separator name

end Tree

end MetricTree
