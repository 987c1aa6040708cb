import Courier.Bytes

/-!
# File names

What stands at a file name when the file system is known by some of its names.
A name is followed step by step from the root: a step that is empty or a dot
stays, two dots go back, and only a directory has anything beneath it.

**Results.**
* `FileTree.steps`: the steps of a file name.
* `FileTree.resolve`: what stands at a file name.
-/

namespace Courier
namespace Remote

/-- What stands at a file name. -/
inductive FileNode where
  | directory
  /-- A file through which one may try to reach a server. -/
  | socket (served : Bool)
  deriving DecidableEq

/-- Why a file name leads nowhere. -/
inductive FileFault where
  | missing
  /-- A step leads through something that is no directory. -/
  | notDirectory
  deriving DecidableEq

/-- File names with what stands there.  What lies above one of them is a directory. -/
abbrev FileTree := List (Bytes × FileNode)

namespace FileTree

/-- The pieces of a file name between its slashes. -/
def pieces : Bytes → List Bytes
  | [] => [[]]
  | b :: bs =>
      if b = 0x2F then [] :: pieces bs
      else
        match pieces bs with
        | [] => [[b]]
        | p :: ps => (b :: p) :: ps

/-- Whether a step stays where it is. -/
def stays (step : Bytes) : Bool :=
  step == [] || step == [0x2E]

/-- The steps of a file name that lead on. -/
def steps (name : Bytes) : List Bytes :=
  (pieces name).filter (!stays ·)

/-- What stands where some steps from the root lead. -/
def node? (t : FileTree) (place : List Bytes) : Option FileNode :=
  match t.find? fun f => steps f.1 == place with
  | some f => some f.2
  | none =>
      if place = [] || t.any (fun f => place.isPrefixOf (steps f.1)) then some .directory
      else none

/-- What stands where steps from a place lead. -/
def walk (t : FileTree) (place : List Bytes) : List Bytes → Except FileFault FileNode
  | [] =>
      match t.node? place with
      | some n => .ok n
      | none => .error .missing
  | step :: rest =>
      match t.node? place with
      | none => .error .missing
      | some (.socket _) => .error .notDirectory
      | some .directory =>
          if stays step then t.walk place rest
          else if step = [0x2E, 0x2E] then t.walk place.dropLast rest
          else t.walk (place ++ [step]) rest

/-- What stands at a file name that begins at the root. -/
def resolve (t : FileTree) (name : Bytes) : Except FileFault FileNode :=
  t.walk [] (pieces name)

end FileTree
end Remote
end Courier
