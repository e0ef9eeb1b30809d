import Darwin.Ipc.Entry

/-! The splay trees of `ipc/ipc_splay.c`. A pointer to an entry is its address or `none`; an
address that is no entry of a tree holds anything. A loop that has not ended when the fuel is
used up, and an access through a null pointer, give `none`. -/
open Function
namespace Darwin.Ipc

structure IpcTreeEntry where
  iteName : MachPortName
  iteLchild : Option ℕ
  iteRchild : Option ℕ

/-- `istLtreep` is `none` when it points to `istLtree` itself, and an entry when it points to
the `iteRchild` of that entry; `istRtreep` goes the other way. -/
structure IpcSplayTree where
  istName : MachPortName
  istRoot : Option ℕ
  istLtree : Option ℕ
  istLtreep : Option ℕ
  istRtree : Option ℕ
  istRtreep : Option ℕ

def machPortSmallest : MachPortName := 0
def machPortLargest : MachPortName := ~~~0

/-- The entries, a splay tree and the middle tree that is being worked on. -/
structure Splaying where
  heap : ℕ → IpcTreeEntry
  splay : IpcSplayTree
  tree : ℕ

namespace Splaying

def setEntry (s : Splaying) (a : ℕ) (entry : IpcTreeEntry) : Splaying :=
  {s with heap := update s.heap a entry}

def setLchild (s : Splaying) (a : ℕ) (child : Option ℕ) : Splaying :=
  s.setEntry a {s.heap a with iteLchild := child}

def setRchild (s : Splaying) (a : ℕ) (child : Option ℕ) : Splaying :=
  s.setEntry a {s.heap a with iteRchild := child}

def storeLtreep (s : Splaying) (child : Option ℕ) : Splaying :=
  match s.splay.istLtreep with
  | none => {s with splay := {s.splay with istLtree := child}}
  | some a => s.setRchild a child

def storeRtreep (s : Splaying) (child : Option ℕ) : Splaying :=
  match s.splay.istRtreep with
  | none => {s with splay := {s.splay with istRtree := child}}
  | some a => s.setLchild a child

def linkLeft (s : Splaying) : Option Splaying :=
  let s := s.storeLtreep (some s.tree)
  match (s.heap s.tree).iteRchild with
  | none => none
  | some rchild => some {s with splay := {s.splay with istLtreep := some s.tree},tree := rchild}

def linkRight (s : Splaying) : Option Splaying :=
  let s := s.storeRtreep (some s.tree)
  match (s.heap s.tree).iteLchild with
  | none => none
  | some lchild => some {s with splay := {s.splay with istRtreep := some s.tree},tree := lchild}

def rotateLeft (s : Splaying) : Option Splaying :=
  let temp := s.tree
  match (s.heap temp).iteRchild with
  | none => none
  | some tree =>
    some {(s.setRchild temp (s.heap tree).iteLchild).setLchild tree (some temp) with tree := tree}

def rotateRight (s : Splaying) : Option Splaying :=
  let temp := s.tree
  match (s.heap temp).iteLchild with
  | none => none
  | some tree =>
    some {(s.setLchild temp (s.heap tree).iteRchild).setRchild tree (some temp) with tree := tree}

def descendLeft (s : Splaying) (name : MachPortName) (lchild : ℕ) : Option Splaying := do
  let tname := (s.heap lchild).iteName
  let s ← if name<tname ∧ (s.heap lchild).iteLchild≠none then s.rotateRight else some s
  let s ← s.linkRight
  if tname<name ∧ (s.heap lchild).iteRchild≠none then s.linkLeft else some s

def descendRight (s : Splaying) (name : MachPortName) (rchild : ℕ) : Option Splaying := do
  let tname := (s.heap rchild).iteName
  let s ← if tname<name ∧ (s.heap rchild).iteRchild≠none then s.rotateLeft else some s
  let s ← s.linkLeft
  if name<tname ∧ (s.heap rchild).iteLchild≠none then s.linkRight else some s

/-- One round of the loop of `ipc_splay_prim_lookup`, and whether there is another one. -/
def primLookupStep (name : MachPortName) (s : Splaying) : Option (Splaying × Bool) :=
  if name=(s.heap s.tree).iteName then some (s,false)
  else if name<(s.heap s.tree).iteName then
    match (s.heap s.tree).iteLchild with
    | none => some (s,false)
    | some lchild => (s.descendLeft name lchild).map (·,true)
  else
    match (s.heap s.tree).iteRchild with
    | none => some (s,false)
    | some rchild => (s.descendRight name rchild).map (·,true)

def primLookupLoop (name : MachPortName) : ℕ → Splaying → Option Splaying
  | 0,_ => none
  | fuel+1,s =>
    match primLookupStep name s with
    | none => none
    | some (s,false) => some s
    | some (s,true) => primLookupLoop name fuel s

/-- The pointers that a lookup starts from are those to the fields of the splay tree. -/
def ipcSplayPrimLookup (name : MachPortName) (fuel : ℕ) (s : Splaying) : Option Splaying :=
  primLookupLoop name fuel {s with splay := {s.splay with istLtreep := none,istRtreep := none}}

def ipcSplayPrimAssemble (s : Splaying) : Splaying :=
  let s := s.storeLtreep (s.heap s.tree).iteLchild
  let s := s.storeRtreep (s.heap s.tree).iteRchild
  let s := s.setLchild s.tree s.splay.istLtree
  s.setRchild s.tree s.splay.istRtree

/-- What the operations start with: unless the last lookup was for this name, the tree is
assembled and taken apart again at the name. -/
def splayTo (name : MachPortName) (fuel : ℕ) (s : Splaying) : Option Splaying :=
  if s.splay.istName≠name then ipcSplayPrimLookup name fuel s.ipcSplayPrimAssemble else some s

end Splaying

open Splaying

def ipcSplayTreeInit (splay : IpcSplayTree) : IpcSplayTree := {splay with istRoot := none}

def ipcSplayTreeLookup (name : MachPortName) (fuel : ℕ) (heap : ℕ → IpcTreeEntry)
    (splay : IpcSplayTree) : Option (Option ℕ × (ℕ → IpcTreeEntry) × IpcSplayTree) :=
  match splay.istRoot with
  | none => some (none,heap,splay)
  | some root =>
    match splayTo name fuel ⟨heap,splay,root⟩ with
    | none => none
    | some s =>
      let splay := {s.splay with istName := name,istRoot := some s.tree}
      some (if name≠(s.heap s.tree).iteName then none else some s.tree,s.heap,splay)

/-- The pointers to both partial trees are those to the fields of the splay tree. -/
def IpcSplayTree.reset (splay : IpcSplayTree) (name : MachPortName) (root : Option ℕ) :
    IpcSplayTree :=
  {splay with istName := name,istRoot := root,istLtreep := none,istRtreep := none}

def ipcSplayTreeInsert (name : MachPortName) (entry : ℕ) (fuel : ℕ) (heap : ℕ → IpcTreeEntry)
    (splay : IpcSplayTree) : Option ((ℕ → IpcTreeEntry) × IpcSplayTree) :=
  match splay.istRoot with
  | none =>
    some (update heap entry ⟨name,none,none⟩,splay.reset name (some entry))
  | some root =>
    match splayTo name fuel ⟨heap,splay,root⟩ with
    | none => none
    | some s =>
      let s : Splaying :=
        if name<(s.heap s.tree).iteName then (s.storeLtreep none).storeRtreep (some s.tree)
        else (s.storeLtreep (some s.tree)).storeRtreep none
      some (update s.heap entry ⟨name,s.splay.istLtree,s.splay.istRtree⟩,
        s.splay.reset name (some entry))

def ipcSplayTreeDelete (name : MachPortName) (fuel : ℕ) (heap : ℕ → IpcTreeEntry)
    (splay : IpcSplayTree) : Option ((ℕ → IpcTreeEntry) × IpcSplayTree) :=
  match splay.istRoot with
  | none => none
  | some root =>
    match splayTo name fuel ⟨heap,splay,root⟩ with
    | none => none
    | some s =>
      let s := s.storeLtreep (s.heap s.tree).iteLchild
      let s := s.storeRtreep (s.heap s.tree).iteRchild
      match s.splay.istLtree,s.splay.istRtree with
      | none,none => some (s.heap,{s.splay with istRoot := none})
      | none,some root => some (s.heap,s.splay.reset (s.heap root).iteName (some root))
      | some root,none => some (s.heap,s.splay.reset (s.heap root).iteName (some root))
      | some root,some saved =>
        -- the largest of the left tree goes to the root, then it gets the right tree
        match ipcSplayPrimLookup machPortLargest fuel {s with tree := root} with
        | none => none
        | some s =>
          let s := s.ipcSplayPrimAssemble
          let s := s.setRchild s.tree (some saved)
          some (s.heap,s.splay.reset (s.heap s.tree).iteName (some s.tree))

def ipcSplayTreeSplit (name : MachPortName) (fuel : ℕ) (heap : ℕ → IpcTreeEntry)
    (splay small : IpcSplayTree) : Option ((ℕ → IpcTreeEntry) × IpcSplayTree × IpcSplayTree) :=
  let small := ipcSplayTreeInit small
  match splay.istRoot with
  | none => some (heap,splay,small)
  | some root =>
    match splayTo name fuel ⟨heap,splay,root⟩ with
    | none => none
    | some s =>
      if (s.heap s.tree).iteName<name then
        let s := s.storeLtreep (s.heap s.tree).iteLchild
        let s := s.storeRtreep none
        let s := s.setLchild s.tree s.splay.istLtree
        let small := small.reset (s.heap s.tree).iteName (some s.tree)
        match s.splay.istRtree with
        | none => some (s.heap,{s.splay with istRoot := none},small)
        | some root => some (s.heap,s.splay.reset (s.heap root).iteName (some root),small)
      else
        let s := s.storeLtreep (s.heap s.tree).iteLchild
        let s := s.setLchild s.tree none
        let splay := {s.splay with istRoot := some s.tree,istName := name,istLtreep := none}
        match s.splay.istLtree with
        | none => some (s.heap,splay,small)
        | some root => some (s.heap,splay,small.reset (s.heap root).iteName (some root))

def ipcSplayTreeJoin (fuel : ℕ) (heap : ℕ → IpcTreeEntry) (splay small : IpcSplayTree) :
    Option ((ℕ → IpcTreeEntry) × IpcSplayTree × IpcSplayTree) :=
  match small.istRoot with
  | none => some (heap,splay,small)
  | some sroot =>
    let pulled := ipcSplayPrimAssemble ⟨heap,small,sroot⟩
    let heap := pulled.heap
    let small := {pulled.splay with istRoot := none}
    match splay.istRoot with
    | none => some (heap,splay.reset (heap sroot).iteName (some sroot),small)
    | some root =>
      match splayTo machPortSmallest fuel ⟨heap,splay,root⟩ with
      | none => none
      | some s =>
        let s := s.ipcSplayPrimAssemble
        let s := s.setLchild s.tree (some sroot)
        some (s.heap,s.splay.reset (s.heap s.tree).iteName (some s.tree),small)

/-- The largest name that is at most the one that was looked up. The pointer into the left tree
is turned back into the entry it points into. -/
def Splaying.lowerp (s : Splaying) (name : MachPortName) : MachPortName :=
  if (s.heap s.tree).iteName≤name then (s.heap s.tree).iteName
  else match s.splay.istLtreep with
    | none => machPortLargest
    | some entry => (s.heap entry).iteName

def Splaying.upperp (s : Splaying) (name : MachPortName) : MachPortName :=
  if name≤(s.heap s.tree).iteName then (s.heap s.tree).iteName
  else match s.splay.istRtreep with
    | none => machPortSmallest
    | some entry => (s.heap entry).iteName

def ipcSplayTreeBounds (name : MachPortName) (fuel : ℕ) (heap : ℕ → IpcTreeEntry)
    (splay : IpcSplayTree) :
    Option ((MachPortName × MachPortName) × (ℕ → IpcTreeEntry) × IpcSplayTree) :=
  match splay.istRoot with
  | none => some ((machPortLargest,machPortSmallest),heap,splay)
  | some root =>
    match splayTo name fuel ⟨heap,splay,root⟩ with
    | none => none
    | some s =>
      some ((s.lowerp name,s.upperp name),s.heap,
        {s.splay with istName := name,istRoot := some s.tree})

end Darwin.Ipc
