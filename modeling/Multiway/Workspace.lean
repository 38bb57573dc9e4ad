import Multiway.Edit
import Multiway.Iter
import Multiway.Registers
import Multiway.Tree.Transform

/-!
# Workspaces

A workspace holds versions of trees under names, and transients, which are versions being worked on.
Versions share their nodes, so all that a name holds is the place of a root. A tree's own updates
leave their argument alone and put their answer in a new place. A transient is updated step by step;
only replacing its values works in the place of its root, and only if no other name holds that
place.

All values of a workspace are of one type. Trees with values of another type share no node with
them and are held in another workspace; only `Workspace.mapInto` goes from one to the other.

* `Workspace`, `Action`, `Workspace.step`: one step of a workspace, with its answer;
* `Workspace.mapInto`: a tree of one workspace transformed into a tree of another;
* `Workspace.sameRoot`: whether two trees have one root;
* `Workspace.equal`, `Workspace.unequal`: equality of trees; one root means equal contents.
-/

namespace Multiway

variable {σ K V W : Type}

/-- The place of a root. -/
abbrev Place := Nat

/-- Roots in their places, and the places that names hold. -/
structure Workspace (K V : Type) where
  roots : Array (Tree K V)
  trees : Registers Place
  transients : Registers Place

/-- One step of work. -/
inductive Action (σ K V : Type) where
  /-- Puts a new tree under a name. -/
  | store (target : String) (tree : Tree K V)
  /-- Puts a tree under another name too. -/
  | copy (source target : String)
  /-- Puts the update of a tree under a name. -/
  | edit (source target : String) (edit : Edit K V)
  /-- Puts a tree with transformed values, of the same type, under a name. -/
  | map (source target : String) (f : Transform σ K V V) (s : σ)
  /-- Begins a transient with a new tree. -/
  | begin (transient : String) (tree : Tree K V)
  /-- Begins a transient with a copy of a tree. -/
  | borrow (source transient : String)
  /-- Begins a transient with a tree, which its name no longer holds. -/
  | move (source transient : String)
  /-- Updates a transient. -/
  | update (transient : String) (edit : Edit K V)
  /-- Transforms the values of a transient. -/
  | mapInPlace (transient : String) (f : Transform σ K V V) (s : σ)
  /-- Puts a copy of a transient under a name. -/
  | snapshot (transient target : String)
  /-- Ends a transient and puts its tree under a name. -/
  | finish (transient target : String)

/-- Why a step has no answer. -/
inductive Refusal where
  | fault (fault : Fault)
  | noTree (name : String)
  | noTransient (name : String)
deriving DecidableEq

namespace Workspace

/-- The workspace in which no name holds anything. -/
def empty : Workspace K V := ⟨#[], .empty, .empty⟩

/-- The tree whose root is at a place. -/
def treeAt (w : Workspace K V) (p : Place) : Tree K V := w.roots[p]?.getD .empty

/-- The tree under a name. -/
def tree? (w : Workspace K V) (name : String) : Option (Tree K V) :=
  (w.trees.get? name).map w.treeAt

/-- The transient under a name. -/
def transient? (w : Workspace K V) (name : String) : Option (Tree K V) :=
  (w.transients.get? name).map w.treeAt

/-- The workspace with a new root, and its place. -/
def allocate (w : Workspace K V) (t : Tree K V) : Workspace K V × Place :=
  ({ w with roots := w.roots.push t }, w.roots.size)

/-- The number of names, of trees and of transients, that hold a place. -/
def holders (w : Workspace K V) (p : Place) : Nat :=
  w.trees.contents.count p + w.transients.contents.count p

/-- The workspace with a place under the name of a tree. -/
def setTree (w : Workspace K V) (name : String) (p : Place) : Workspace K V :=
  { w with trees := w.trees.set name p }

/-- The workspace with a place under the name of a transient. -/
def setTransient (w : Workspace K V) (name : String) (p : Place) : Workspace K V :=
  { w with transients := w.transients.set name p }

/-- The workspace without the transient of a name. -/
def dropTransient (w : Workspace K V) (name : String) : Workspace K V :=
  { w with transients := w.transients.unset name }

/-- The workspace with a new root under the name of a tree. -/
def putTree (w : Workspace K V) (name : String) (t : Tree K V) : Workspace K V :=
  let (w, p) := w.allocate t
  w.setTree name p

/-- The workspace with a new root under the name of a transient. -/
def putTransient (w : Workspace K V) (name : String) (t : Tree K V) : Workspace K V :=
  let (w, p) := w.allocate t
  w.setTransient name p

/-- The workspace in which a transient has other contents: in the place of its root if no other name
holds that place, and else in a new place. -/
def replaceTransient (w : Workspace K V) (name : String) (p : Place) (t : Tree K V) :
    Workspace K V :=
  if w.holders p = 1 then { w with roots := w.roots.setIfInBounds p t }
  else w.putTransient name t

/-- Puts a tree of `w` with transformed values under a name of `v`. -/
def mapInto (w : Workspace K V) (v : Workspace K W) (source target : String)
    (f : Transform σ K V W) (s : σ) : Workspace K W × Except Refusal (Answer K W) :=
  match w.trees.get? source with
  | none => (v, .error (.noTree source))
  | some p =>
    match (w.treeAt p).map f s with
    | .error fault => (v, .error (.fault fault))
    | .ok (t, _) => (v.putTree target t, .ok .nothing)

/-- One step of a workspace. A step without an answer leaves the trees as they were; a transient
whose update fails is lost. -/
def step (w : Workspace K V) : Action σ K V → Workspace K V × Except Refusal (Answer K V)
  | .store target t => (w.putTree target t, .ok .nothing)
  | .copy source target =>
    match w.trees.get? source with
    | none => (w, .error (.noTree source))
    | some p => (w.setTree target p, .ok .nothing)
  | .edit source target edit =>
    match w.trees.get? source with
    | none => (w, .error (.noTree source))
    | some p =>
      match edit.apply (w.treeAt p) with
      | .error fault => (w, .error (.fault fault))
      | .ok ⟨none, answer⟩ => (w.setTree target p, .ok answer)
      | .ok ⟨some t, answer⟩ => (w.putTree target t, .ok answer)
  | .map source target f s => w.mapInto w source target f s
  | .begin transient t => (w.putTransient transient t, .ok .nothing)
  | .borrow source transient =>
    match w.trees.get? source with
    | none => (w, .error (.noTree source))
    | some p => (w.setTransient transient p, .ok .nothing)
  | .move source transient =>
    match w.trees.get? source with
    | none => (w, .error (.noTree source))
    | some p =>
      ({ w with trees := w.trees.unset source }.setTransient transient p, .ok .nothing)
  | .update transient edit =>
    match w.transients.get? transient with
    | none => (w, .error (.noTransient transient))
    | some p =>
      match edit.apply (w.treeAt p) with
      | .error fault => (w.dropTransient transient, .error (.fault fault))
      | .ok ⟨none, answer⟩ => (w, .ok answer)
      | .ok ⟨some t, answer⟩ => (w.putTransient transient t, .ok answer)
  | .mapInPlace transient f s =>
    match w.transients.get? transient with
    | none => (w, .error (.noTransient transient))
    | some p => (w.replaceTransient transient p ((w.treeAt p).mapInPlace f s).1, .ok .nothing)
  | .snapshot transient target =>
    match w.transients.get? transient with
    | none => (w, .error (.noTransient transient))
    | some p => (w.setTree target p, .ok .nothing)
  | .finish transient target =>
    match w.transients.get? transient with
    | none => (w, .error (.noTransient transient))
    | some p => ((w.dropTransient transient).setTree target p, .ok .nothing)

/-- The steps of a list one after another, whatever they answer. -/
def run (w : Workspace K V) (actions : List (Action σ K V)) : Workspace K V :=
  actions.foldl (fun w action => (w.step action).1) w

/-! ## Comparing trees -/

/-- Whether two places hold one root. All empty trees have one root. -/
def sameRoot (w : Workspace K V) (p q : Place) : Bool :=
  p == q || (w.treeAt p).isEmpty && (w.treeAt q).isEmpty

/-- Whether the trees at two places are equal. Only trees with different roots are compared entry by
entry. -/
def equal [BEq K] [BEq V] (w : Workspace K V) (p q : Place) : Except Fault Bool :=
  if w.sameRoot p q then .ok true else (w.treeAt p).agree (w.treeAt q)

/-- Whether the trees at two places differ. -/
def unequal [BEq K] [BEq V] (w : Workspace K V) (p q : Place) : Except Fault Bool :=
  Bool.not <$> w.equal p q

end Workspace

end Multiway
