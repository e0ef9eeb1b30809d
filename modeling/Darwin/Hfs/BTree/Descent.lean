import Darwin.Hfs.BTree.NodeImage
import Darwin.Hfs.BTree.Search

/-! The descent of `SearchTree` through nodes of any content. Only what `VerifyHeader` and
`CheckNode` have looked at is known of the file. -/
open List Option Nat
namespace Darwin.Hfs
namespace NodeImage

/-- A B-tree file whose header passes `VerifyHeader`: the memory from the beginning of the
buffer of each node on, which nodes the block layer can get and release, and how the search
key compares with the key at an address. Nodes that can be read pass `CheckNode`. -/
structure TreeFile where
  header : BTHeaderRec
  fcbEOF : UInt64
  verified : verifyHeader fcbEOF header=.noErr
  node : ℕ → Memory
  read : ℕ → Bool
  release : ℕ → Bool
  checked : ∀ nodeNum<header.totalNodes.toNat,read nodeNum=true →
    checkNode (openPath header (verifyHeader_ok verified).nodeSize) (node nodeNum) fcbEOF=true
  compareProc : Memory → ℤ → Ordering

/-- A pointer into the buffer of a node. -/
structure DataPtr where
  nodeNum : ℕ
  offset : ℤ
  deriving DecidableEq

/-- The local variables of `SearchTree` at the head of its loop. `dataPtr` is left over from
the round before, and is not initialized in the first round. -/
structure Descent where
  curNodeNum : ℕ
  dataPtr : DataPtr
  deriving DecidableEq

/-- A store into the tree path table. -/
structure PathStore where
  level : ℕ
  node : ℕ
  index : ℕ
  deriving DecidableEq

inductive SearchResult
  | error (e : BTErr)
  | found (nodeNum index : ℕ)
  | notFound (nodeNum index : ℕ)
  deriving DecidableEq

namespace TreeFile
variable (f : TreeFile)

def block : ControlBlock := openPath f.header (verifyHeader_ok f.verified).nodeSize

def getNode (nodeNum : ℕ) : Except BTErr Memory :=
  if f.block.totalNodes≤nodeNum then .error .fsBTInvalidNodeErr
  else if f.read nodeNum=false then .error .ioErr
  else if checkNode f.block (f.node nodeNum) f.fcbEOF then .ok (f.node nodeNum)
  else .error .fsBTInvalidNodeErr

def searchNode (m : Memory) : Bool × ℕ :=
  BTree.searchNodeLoop (fun index => f.compareProc m (getRecordOffset f.block m index))
    (numRecords m) 0 (numRecords m-1)

def chosen (m : Memory) : ℕ := BTree.childIndex (f.searchNode m).1 (f.searchNode m).2

def childOf (p : DataPtr) : ℕ := readUInt32 (f.node p.nodeNum) p.offset

def dataPtrAfter (s : Descent) (m : Memory) : DataPtr :=
  match getRecordByIndex f.block m (f.chosen m) with
  | .ok r => ⟨s.curNodeNum,r.dataPtr⟩
  | .error _ => s.dataPtr

/-- How a round of the loop ends. -/
inductive Round
  | done (r : SearchResult)
  | down (s : Descent)

def round (s : Descent) : List PathStore × Round :=
  match f.getNode s.curNodeNum with
  | .error e => ([],.done (.error e))
  | .ok m =>
    let (keyFound,index) := f.searchNode m
    if kind m=kBTLeafNode then
      ([⟨height m,s.curNodeNum,index⟩],
        .done (if keyFound then .found s.curNodeNum index else .notFound s.curNodeNum index))
    else
      let dataPtr := f.dataPtrAfter s m
      ([⟨height m,s.curNodeNum,f.chosen m⟩],
        if f.release s.curNodeNum then .down ⟨f.childOf dataPtr,dataPtr⟩ else .done (.error .ioErr))

def searchLoop : ℕ → Descent → List PathStore × Option SearchResult
  | 0,_ => ([],none)
  | fuel+1,s =>
    match f.round s with
    | (stores,.done r) => (stores,some r)
    | (stores,.down s) => (stores++(searchLoop fuel s).1,(searchLoop fuel s).2)

def searchTree (junk : DataPtr) (fuel : ℕ) : List PathStore × Option SearchResult :=
  if f.block.treeDepth=0 then ([],some (.error .fsBTEmptyErr))
  else
    let (stores,r) := f.searchLoop fuel ⟨f.block.rootNode,junk⟩
    (⟨0,0,0⟩::stores,r)

def down (s : Descent) : Option Descent :=
  match (f.round s).2 with
  | .done _ => none
  | .down s' => some s'

def visited (s : Descent) : ℕ → Option Descent
  | 0 => some s
  | k+1 => (visited s k).bind f.down

def start (junk : DataPtr) : Descent := ⟨f.block.rootNode,junk⟩

/-- By the records that the search key selects from the root on, no node is come to twice,
and none of the nodes has the height 16. -/
structure DescendsLow (junk : DataPtr) : Prop where
  acyclic : ∀ i j s t,i<j → f.visited (f.start junk) i=some s →
    f.visited (f.start junk) j=some t → s.curNodeNum≠t.curNodeNum
  low : ∀ i s m,f.visited (f.start junk) i=some s → f.getNode s.curNodeNum=.ok m →
    height m≠kMaxTreeDepth

variable {f}

lemma round_of_error {s : Descent} {e : BTErr} (h : f.getNode s.curNodeNum=.error e) :
    f.round s=([],.done (.error e)) := by
  rw [round,h]

lemma down_of_ok {s : Descent} {m : Memory} (h : f.getNode s.curNodeNum=.ok m) : f.down s =
    if kind m=kBTLeafNode then none
    else if f.release s.curNodeNum then some ⟨f.childOf (f.dataPtrAfter s m),f.dataPtrAfter s m⟩
    else none := by
  rw [down,round,h]
  dsimp only
  split_ifs <;> rfl

lemma round_level {s : Descent} {m : Memory} (h : f.getNode s.curNodeNum=.ok m) :
    ∃ w,(f.round s).1=[w] ∧ w.level=height m := by
  rw [round,h]
  dsimp only
  split_ifs <;> exact ⟨_,rfl,rfl⟩

lemma searchLoop_succ (fuel : ℕ) (s : Descent) : f.searchLoop (fuel+1) s =
    match f.down s with
    | none => ((f.round s).1,(f.searchLoop (fuel+1) s).2)
    | some s' => ((f.round s).1++(f.searchLoop fuel s').1,(f.searchLoop fuel s').2) := by
  rw [down,searchLoop]
  rcases f.round s with ⟨stores,r | s'⟩
  · rfl
  · rfl

lemma visited_succ (s : Descent) (k : ℕ) : f.visited s (k+1) =
    (f.down s).bind fun s' => f.visited s' k := by
  induction k with
  | zero => cases h : f.down s <;> simp [visited,h]
  | succ k ih =>
    rw [visited,ih]
    cases f.down s <;> rfl

lemma searchLoop_ends_iff (s : Descent) :
    (∃ fuel,(f.searchLoop fuel s).2.isSome=true) ↔ ∃ k,f.visited s k=none := by
  constructor
  · rintro ⟨fuel,h⟩
    induction fuel generalizing s with
    | zero => cases h
    | succ fuel ih =>
      rw [searchLoop_succ] at h
      cases hd : f.down s with
      | none => exact ⟨1,by rw [visited_succ,hd]; rfl⟩
      | some s' =>
        rw [hd] at h
        obtain ⟨k,hk⟩ := ih s' h
        exact ⟨k+1,by rw [visited_succ,hd]; exact hk⟩
  · rintro ⟨k,h⟩
    induction k generalizing s with
    | zero => cases h
    | succ k ih =>
      rw [visited_succ] at h
      cases hd : f.down s with
      | none =>
        refine ⟨1,?_⟩
        rw [down] at hd
        rw [searchLoop]
        rcases hr : f.round s with ⟨stores,r | s'⟩
        · rfl
        · rw [hr] at hd
          cases hd
      | some s' =>
        rw [hd] at h
        obtain ⟨fuel,hfuel⟩ := ih s' h
        refine ⟨fuel+1,?_⟩
        rw [searchLoop_succ,hd]
        exact hfuel

lemma searchLoop_levels_iff (P : ℕ → Prop) (s : Descent) :
    (∀ fuel,∀ w∈(f.searchLoop fuel s).1,P w.level) ↔
      ∀ k t m,f.visited s k=some t → f.getNode t.curNodeNum=.ok m → P (height m) := by
  have hround : ∀ t : Descent,(∀ w∈(f.round t).1,P w.level) ↔
      ∀ m,f.getNode t.curNodeNum=.ok m → P (height m) := by
    intro t
    cases hg : f.getNode t.curNodeNum with
    | error e =>
      rw [round_of_error hg]
      exact ⟨fun _ m hm => (by cases hm),fun _ w hw => absurd hw not_mem_nil⟩
    | ok m =>
      obtain ⟨w,hw,hlevel⟩ := round_level hg
      rw [hw]
      constructor
      · intro h m' hm
        cases hm
        exact hlevel▸h w (mem_singleton.mpr rfl)
      · intro h w' hw'
        rw [mem_singleton.mp hw',hlevel]
        exact h m rfl
  constructor
  · intro h k
    induction k generalizing s with
    | zero =>
      intro t m ht hm
      cases ht
      refine (hround s).mp (fun w hw => h 1 w ?_) m hm
      rw [searchLoop_succ]
      cases f.down s with
      | none => exact hw
      | some s' => exact mem_append_left _ hw
    | succ k ih =>
      intro t m ht hm
      rw [visited_succ] at ht
      obtain ⟨s',hd,ht⟩ := Option.bind_eq_some_iff.mp ht
      refine ih s' (fun fuel w hw => h (fuel+1) w ?_) t m ht hm
      rw [searchLoop_succ,hd]
      exact mem_append_right _ hw
  · intro h fuel
    induction fuel generalizing s with
    | zero => exact fun w hw => absurd hw not_mem_nil
    | succ fuel ih =>
      intro w hw
      have hs := (hround s).mpr fun m hm => h 0 s m rfl hm
      rw [searchLoop_succ] at hw
      cases hd : f.down s with
      | none =>
        rw [hd] at hw
        exact hs w hw
      | some s' =>
        rw [hd] at hw
        rcases mem_append.mp hw with hw | hw
        · exact hs w hw
        · refine ih s' (fun k t m ht hm => h (k+1) t m ?_ hm) w hw
          rw [visited_succ,hd]
          exact ht

lemma childOf_dataPtr {s t : Descent} {k : ℕ} (h : f.visited s (k+1)=some t) :
    f.childOf t.dataPtr=t.curNodeNum := by
  obtain ⟨u,-,hd⟩ := Option.bind_eq_some_iff.mp h
  cases hg : f.getNode u.curNodeNum with
  | error e =>
    rw [down,round_of_error hg] at hd
    cases hd
  | ok m =>
    rw [down_of_ok hg] at hd
    split_ifs at hd
    cases hd
    rfl

lemma visited_none {s : Descent} {k l : ℕ} (h : f.visited s k=none) (hkl : k≤l) :
    f.visited s l=none := by
  induction l,hkl using le_induction with
  | base => exact h
  | succ l hkl ih => rw [visited,ih]; rfl

lemma getNode_of_down {s s' : Descent} (h : f.down s=some s') :
    ∃ m,f.getNode s.curNodeNum=.ok m ∧ kind m≠kBTLeafNode ∧ f.release s.curNodeNum=true := by
  cases hg : f.getNode s.curNodeNum with
  | error e =>
    rw [down,round_of_error hg] at h
    cases h
  | ok m =>
    rw [down_of_ok hg] at h
    split_ifs at h with hleaf hrelease
    exact ⟨m,rfl,hleaf,hrelease⟩

lemma lt_totalNodes {n : ℕ} {m : Memory} (h : f.getNode n=.ok m) : n<f.block.totalNodes := by
  rw [getNode] at h
  split_ifs at h with hn
  exact Nat.lt_of_not_le hn

lemma visited_of_repeat {start s t : Descent} {i j : ℕ} (hij : i<j)
    (hi : f.visited start i=some s) (hj : f.visited start j=some t)
    (hsame : s.curNodeNum=t.curNodeNum) (k : ℕ) : f.visited start k≠none := by
  have hupto : ∀ l≤j,f.visited start l≠none := fun l hl hnone => by
    rw [visited_none hnone hl] at hj
    cases hj
  obtain ⟨s',hs'⟩ : ∃ s',f.down s=some s' := by
    refine ne_none_iff_exists'.mp fun hnone => hupto (i+1) hij ?_
    rw [visited,hi]
    exact hnone
  obtain ⟨m,hm,hleaf,hrelease⟩ := getNode_of_down hs'
  have hm' : f.getNode t.curNodeNum=.ok m := hsame▸hm
  cases hrecord : getRecordByIndex f.block m (f.chosen m) with
  | ok r =>
    have hdown : f.down t=f.down s := by
      rw [down_of_ok hm,down_of_ok hm',dataPtrAfter,dataPtrAfter,hrecord,hsame]
    have hperiod : ∀ l,f.visited start (j+1+l)=f.visited start (i+1+l) := by
      intro l
      induction l with
      | zero =>
        rw [add_zero,add_zero,visited,visited,hi,hj]
        exact hdown
      | succ l ih => rw [←add_assoc,←add_assoc,visited,visited,ih]
    induction k using Nat.strong_induction_on with
    | _ k ih =>
      rcases lt_or_ge j k with hjk | hkj
      · obtain ⟨l,rfl⟩ := Nat.exists_eq_add_of_le (show j+1≤k from hjk)
        rw [hperiod]
        exact ih _ (by omega)
      · exact hupto k hkj
  | error e =>
    have hchild : f.childOf t.dataPtr=t.curNodeNum := by
      obtain ⟨j,rfl⟩ := exists_eq_succ_of_ne_zero (ne_zero_of_lt hij)
      exact childOf_dataPtr hj
    have hdown : f.down t=some t := by
      rw [down_of_ok hm',if_neg hleaf,←hsame,if_pos hrelease,dataPtrAfter,hrecord]
      dsimp only
      rw [hchild]
    have hstays : ∀ l,f.visited start (j+l)=some t := by
      intro l
      induction l with
      | zero => exact hj
      | succ l ih =>
        rw [←add_assoc,visited,ih]
        exact hdown
    rcases le_total k j with hkj | hjk
    · exact hupto k hkj
    · obtain ⟨l,rfl⟩ := Nat.exists_eq_add_of_le hjk
      rw [hstays]
      exact some_ne_none t

lemma exists_repeat {start : Descent} (h : ∀ k,f.visited start k≠none) :
    ∃ i j s t,i<j ∧ f.visited start i=some s ∧ f.visited start j=some t ∧
      s.curNodeNum=t.curNodeNum := by
  choose state hstate using fun k => ne_none_iff_exists'.mp (h k)
  have hbound : ∀ k,(state k).curNodeNum<f.block.totalNodes := by
    intro k
    have hnext := hstate (k+1)
    rw [visited,hstate k] at hnext
    obtain ⟨m,hm,-,-⟩ := getNode_of_down hnext
    exact lt_totalNodes hm
  obtain ⟨i,j,hne,heq⟩ := Finite.exists_ne_map_eq_of_infinite
    fun k => (⟨(state k).curNodeNum,hbound k⟩ : Fin f.block.totalNodes)
  have heq : (state i).curNodeNum=(state j).curNodeNum := congrArg Fin.val heq
  rcases lt_or_gt_of_ne hne with hij | hji
  · exact ⟨i,j,_,_,hij,hstate i,hstate j,heq⟩
  · exact ⟨j,i,_,_,hji,hstate j,hstate i,heq.symm⟩

lemma height_le {n : ℕ} {m : Memory} (h : f.getNode n=.ok m) : height m≤kMaxTreeDepth := by
  rw [getNode] at h
  split_ifs at h with hn hread hcheck
  cases h
  exact (checkNode_ok hcheck).height.trans (verifyHeader_ok f.verified).treeDepth

/-- `SearchTree` ends, and stores inside its table, just if the nodes that the search key
selects from the root on are all different and none has the height 16. -/
theorem searchTree_iff (f : TreeFile) (junk : DataPtr) :
    ((∃ fuel,(f.searchTree junk fuel).2.isSome=true) ∧
      ∀ fuel,∀ w∈(f.searchTree junk fuel).1,w.level<kMaxTreeDepth) ↔
    f.block.treeDepth=0 ∨ f.DescendsLow junk := by
  by_cases hempty : f.block.treeDepth=0
  · refine iff_of_true ⟨⟨0,?_⟩,fun fuel w hw => ?_⟩ (.inl hempty)
    · rw [searchTree,if_pos hempty]
      rfl
    · rw [searchTree,if_pos hempty] at hw
      cases hw
  have hrun : ∀ fuel,f.searchTree junk fuel=(⟨0,0,0⟩::(f.searchLoop fuel (f.start junk)).1,
      (f.searchLoop fuel (f.start junk)).2) := fun fuel => by
    rw [searchTree,if_neg hempty]
    rfl
  have hstores : (∀ fuel,∀ w∈(f.searchTree junk fuel).1,w.level<kMaxTreeDepth) ↔
      ∀ fuel,∀ w∈(f.searchLoop fuel (f.start junk)).1,w.level<kMaxTreeDepth := by
    refine forall_congr' fun fuel => ?_
    rw [hrun,forall_mem_cons]
    exact and_iff_right (show 0<kMaxTreeDepth by decide)
  have hends : (∃ fuel,(f.searchTree junk fuel).2.isSome=true) ↔
      ∃ fuel,(f.searchLoop fuel (f.start junk)).2.isSome=true :=
    exists_congr fun fuel => by rw [hrun]
  rw [hstores,hends,searchLoop_ends_iff,searchLoop_levels_iff (· < kMaxTreeDepth)]
  constructor
  · rintro ⟨⟨k,hk⟩,hlow⟩
    refine .inr ⟨fun i j s t hij hi hj hsame => ?_,fun i s m hs hm => (hlow i s m hs hm).ne⟩
    exact visited_of_repeat hij hi hj hsame k hk
  · rintro (hzero | ⟨hacyclic,hlow⟩)
    · exact absurd hzero hempty
    · refine ⟨?_,fun i s m hs hm => lt_of_le_of_ne (height_le hm) (hlow i s m hs hm)⟩
      by_contra hnone
      obtain ⟨i,j,s,t,hij,hi,hj,hsame⟩ := exists_repeat fun k hk => hnone ⟨k,hk⟩
      exact hacyclic i j s t hij hi hj hsame

/-- A file of four index nodes of this height with one record each, which leads to node 2. -/
def pathImage (height : UInt8) : Memory :=
  imageOf [0,0,0,0,0,0,0,0,0,height,0,1,0,0,1,7,0,0,0,2] [0,0,0,0,0,20,0,14]

def loopFile : TreeFile where
  header := smallHeader 4
  fcbEOF := 2048
  verified := by decide
  node := fun _ => pathImage 1
  read := fun _ => true
  release := fun _ => true
  checked := fun _ _ _ => by decide
  compareProc := fun _ _ => .eq

def tallFile : TreeFile where
  header := {smallHeader 4 with treeDepth := 16}
  fcbEOF := 2048
  verified := by decide
  node := fun _ => pathImage 16
  read := fun _ => true
  release := fun _ => true
  checked := fun _ _ _ => by decide
  compareProc := fun _ _ => .eq

/-- Node 2 leads to itself; a node of height 16 has its store behind the table. -/
theorem searchTree_unchecked : (¬∃ fuel,(loopFile.searchTree ⟨0,0⟩ fuel).2.isSome=true) ∧
      ¬∀ fuel,∀ w∈(tallFile.searchTree ⟨0,0⟩ fuel).1,w.level<kMaxTreeDepth := by
  constructor
  · rintro ⟨fuel,h⟩
    obtain ⟨k,hk⟩ := (searchLoop_ends_iff (loopFile.start ⟨0,0⟩)).mp ⟨fuel,h⟩
    have hfirst : loopFile.visited (loopFile.start ⟨0,0⟩) 1=some ⟨2,1,16⟩ := by decide
    have hagain : loopFile.visited (loopFile.start ⟨0,0⟩) 2=some ⟨2,2,16⟩ := by decide
    exact visited_of_repeat (by decide : 1<2) hfirst hagain rfl k hk
  · intro h
    exact absurd (h 1) (by decide)

end TreeFile
end NodeImage
end Darwin.Hfs
