import Darwin.Lib.ByteStore

/-! The data queue that a kernel producer (`IODataQueue.cpp`) shares with a consumer
(`IODataQueueClient.c`), in steps of single accesses to its words and bytes. The notification
that is sent after an entry was enqueued is left out. -/
open List Function Option Nat
namespace Darwin.IOKit
open Lib.ByteStore

def entryHeaderSize : ℕ := 4

/-- `IODataQueueMemory`: the bytes of the queue from its first one on. -/
structure DataQueue where
  queueSize : ℕ
  head : ℕ
  tail : ℕ
  queue : ℕ → UInt8

/-- What `enqueue` stores for an entry, and the tail after it; `none` when the queue is full. -/
def place (queueSize head tail : ℕ) (data : List UInt8) : Option (List (ℕ × UInt8) × ℕ) :=
  let entrySize := (data.length+entryHeaderSize)%2^32
  let size := Lib.Bytes.toBytes 4 data.length
  let entry (o : ℕ) := storesAt o size++storesAt (o+entryHeaderSize) data
  if head≤tail then
    if (tail+entrySize)%2^32<queueSize then some (entry tail,(tail+entrySize)%2^32)
    else if entrySize<head then
      some (storesAt 0 size++storesAt tail size++storesAt entryHeaderSize data,entrySize)
    else none
  else if entrySize<head-tail then some (entry tail,(tail+entrySize)%2^32)
  else none

/-- A producer in `enqueue`. -/
inductive Producer
  | idle
  | hasHead (data : List UInt8) (head : ℕ)
  | hasTail (data : List UInt8) (head tail : ℕ)
  | storing (data : List UInt8) (todo : List (ℕ × UInt8)) (newTail : ℕ)

/-- The arguments `data` and `dataSize`, either of which may be null. -/
inductive DequeueBuffer
  | noData
  | noSize
  | bytes (dataSize : ℕ)

/-- A consumer in `IODataQueueDequeue`. -/
inductive Consumer
  | idle
  | hasHead (buffer : DequeueBuffer) (head : ℕ)
  | nonempty (buffer : DequeueBuffer) (head : ℕ)
  | located (buffer : DequeueBuffer) (entry newHead : ℕ)
  | copying (entry size newHead : ℕ) (data : List UInt8)
  | taking (data : Option (List UInt8)) (newHead : ℕ)

/-- The accepted entries, what was delivered of them, without its bytes where the caller gave no
buffer, and whether all accesses were to bytes of the queue. -/
structure QueueState where
  q : DataQueue
  producer : Producer
  consumer : Consumer
  accepted : List (List UInt8)
  delivered : List (Option (List UInt8))
  inside : Bool

inductive QueueAction
  | enqueue (data : List UInt8)
  | produce
  | dequeue (buffer : DequeueBuffer)
  | consume

namespace QueueState

def access (s : QueueState) (o n : ℕ) : QueueState :=
  {s with inside := s.inside && decide (o+n ≤ s.q.queueSize)}

def produce (s : QueueState) : Option QueueState :=
  match s.producer with
  | .idle => none
  | .hasHead data head => some {s with producer := .hasTail data head s.q.tail}
  | .hasTail data head tail =>
    match place s.q.queueSize head tail data with
    | none => some {s with producer := .idle}
    | some (todo,newTail) => some {s with producer := .storing data todo newTail}
  | .storing data ((o,b)::todo) newTail =>
    some { s.access o 1 with
      q := {s.q with queue := update s.q.queue o b}
      producer := .storing data todo newTail}
  | .storing data [] newTail =>
    some { s with
      q := {s.q with tail := newTail}
      producer := .idle
      accepted := s.accepted++[data]}

def consume (s : QueueState) : Option QueueState :=
  match s.consumer with
  | .idle => none
  | .hasHead buffer head =>
    some {s with consumer := if head≠s.q.tail then .nonempty buffer head else .idle}
  | .nonempty buffer head =>
    let size := word s.q.queue head
    let s := s.access head 4
    if s.q.queueSize<(head+size)%2^32 then
      some { s.access 0 4 with
        consumer := .located buffer 0 ((word s.q.queue 0+entryHeaderSize)%2^32)}
    else
      some {s with consumer := .located buffer head ((head+size+entryHeaderSize)%2^32)}
  | .located buffer entry newHead =>
    match buffer with
    | .noData => some {s with consumer := .taking none newHead}
    | .noSize => some {s with consumer := .idle}
    | .bytes dataSize =>
      let size := word s.q.queue entry
      let s := s.access entry 4
      if size≤dataSize then some {s with consumer := .copying entry size newHead []}
      else some {s with consumer := .idle}
  | .copying entry size newHead data =>
    if data.length<size then
      let o := entry+entryHeaderSize+data.length
      some {s.access o 1 with consumer := .copying entry size newHead (data++[s.q.queue o])}
    else some {s with consumer := .taking (some data) newHead}
  | .taking data newHead =>
    some { s with
      q := {s.q with head := newHead}
      consumer := .idle
      delivered := s.delivered++[data]}

def step (s : QueueState) : QueueAction → Option QueueState
  | .enqueue data =>
    match s.producer with
    | .idle => if data.length<2^32 then some {s with producer := .hasHead data s.q.head} else none
    | _ => none
  | .produce => s.produce
  | .dequeue buffer =>
    match s.consumer with
    | .idle => some {s with consumer := .hasHead buffer s.q.head}
    | _ => none
  | .consume => s.consume

def init (size : ℕ) (queue : ℕ → UInt8) : QueueState :=
  ⟨⟨size,0,0,queue⟩,.idle,.idle,[],[],true⟩

end QueueState
end Darwin.IOKit

/-! The entries that lie between the head and the tail of a data queue, and what every step of
the producer and the consumer keeps of them. -/
namespace Darwin.IOKit
open Lib.ByteStore

def EntryAt (mem : ℕ → UInt8) (o : ℕ) (e : List UInt8) : Prop :=
  word mem o=e.length ∧ bytesFrom mem (o+4) e.length=e

/-- Entries one after the other, from one offset to another. -/
inductive Linear (mem : ℕ → UInt8) : ℕ → List (List UInt8) → ℕ → Prop
  | nil (o : ℕ) : Linear mem o [] o
  | cons {o t : ℕ} {e : List UInt8} {es : List (List UInt8)} (he : EntryAt mem o e)
      (hes : Linear mem (o+4+e.length) es t) : Linear mem o (e::es) t

/-- The entries from the head to the tail. Where they wrap around, the size of the entry that is
at the start of the queue also stands where it would have been, and leads past the end. -/
inductive Layout (size : ℕ) (mem : ℕ → UInt8) (head : ℕ) (es : List (List UInt8)) (tail : ℕ) : Prop
  | linear (hes : Linear mem head es tail) (htail : tail ≤ size)
  | wrapped {w : ℕ} {e : List UInt8} {as bs : List (List UInt8)} (heq : es=as++e::bs)
      (has : Linear mem head as w) (hword : word mem w=e.length) (hpast : size<w+e.length)
      (hw : w+4 ≤ size) (hlt : w+e.length<2^32) (he : EntryAt mem 0 e)
      (hbs : Linear mem (4+e.length) bs tail) (htail : tail<head)

def Free (head tail o : ℕ) : Prop :=
  head≤tail ∧ (o<head ∨ tail≤o) ∨ tail<head ∧ tail≤o ∧ o<head

def Advance (head head' tail : ℕ) : Prop :=
  head≤tail ∧ head<head' ∧ head'≤tail ∨ tail<head ∧ (head<head' ∨ head'≤tail)

lemma word_congr {mem mem' : ℕ → UInt8} {o : ℕ} (h : ∀ p,o≤p → p<o+4 → mem' p=mem p) :
    word mem' o=word mem o := by
  rw [word,bytesFrom_congr h,word]

lemma EntryAt.congr {mem mem' : ℕ → UInt8} {o : ℕ} {e : List UInt8} (h : EntryAt mem o e)
    (hmem : ∀ p,o≤p → p<o+4+e.length → mem' p=mem p) : EntryAt mem' o e := by
  refine ⟨?_,?_⟩
  · rw [word_congr fun p hop hp => hmem p hop (by omega)]
    exact h.1
  · rw [bytesFrom_congr fun p hop hp => hmem p (by omega) hp]
    exact h.2

namespace Linear

variable {mem mem' : ℕ → UInt8} {o t : ℕ} {e : List UInt8} {es : List (List UInt8)}

lemma le (h : Linear mem o es t) : o≤t := by
  induction h with
  | nil => exact le_rfl
  | cons _ _ ih => omega

lemma eq_nil (h : Linear mem o es o) : es=[] := by
  cases h with
  | nil => rfl
  | cons _ hes =>
    have := hes.le
    omega

lemma congr (h : Linear mem o es t) (hmem : ∀ p,o≤p → p<t → mem' p=mem p) : Linear mem' o es t := by
  induction h with
  | nil => exact .nil _
  | cons he hes ih =>
    have hle := hes.le
    refine .cons (he.congr fun p hop hp => hmem p hop (by omega)) (ih fun p hop hp => ?_)
    exact hmem p (by omega) hp

lemma snoc (h : Linear mem o es t) (he : EntryAt mem t e) :
    Linear mem o (es++[e]) (t+4+e.length) := by
  induction h with
  | nil => exact .cons he (.nil _)
  | cons he' _ ih => exact .cons he' (ih he)

end Linear

namespace Layout

variable {size head tail : ℕ} {mem : ℕ → UInt8} {e : List UInt8} {es : List (List UInt8)}

lemma eq_nil_iff (h : Layout size mem head es tail) : es=[] ↔ head=tail := by
  cases h with
  | linear hes _ =>
    constructor
    · rintro rfl
      cases hes
      rfl
    · rintro rfl
      exact hes.eq_nil
  | wrapped heq _ _ _ _ _ _ _ htail =>
    refine ⟨fun hnil => ?_,fun heq => by omega⟩
    rw [heq] at hnil
    exact absurd hnil (append_ne_nil_of_right_ne_nil _ (cons_ne_nil _ _))

lemma update (h : Layout size mem head es tail) {o : ℕ} (ho : Free head tail o) (b : UInt8) :
    Layout size (update mem o b) head es tail := by
  have hsame : ∀ p,p≠o → Function.update mem o b p=mem p := fun p hp =>
    Function.update_of_ne hp _ _
  cases h with
  | linear hes htail =>
    have hle := hes.le
    refine .linear (hes.congr fun p hhp hp => hsame p ?_) htail
    rcases ho with ⟨-,ho⟩ | ⟨ho,-⟩ <;> omega
  | wrapped heq has hword hpast hw hlt he hbs htail =>
    have hle := has.le
    have hle' := hbs.le
    have hfree : tail≤o ∧ o<head := by
      rcases ho with ⟨ho,-⟩ | ⟨-,ho⟩
      · omega
      · exact ho
    refine .wrapped heq (has.congr fun p hhp hp => hsame p (by omega)) ?_ hpast hw hlt
      (he.congr fun p _ hp => hsame p (by omega)) (hbs.congr fun p _ hp => hsame p (by omega)) htail
    rw [word_congr fun p hwp hp => hsame p (by omega)]
    exact hword

lemma append (h : Layout size mem head es tail) (he : EntryAt mem tail e)
    (hsize : tail+4+e.length ≤ size) (hhead : tail<head → tail+4+e.length<head) :
    Layout size mem head (es++[e]) (tail+4+e.length) := by
  cases h with
  | linear hes htail => exact .linear (hes.snoc he) hsize
  | wrapped heq has hword hpast hw hlt he' hbs htail =>
    refine .wrapped ?_ has hword hpast hw hlt he' (hbs.snoc he) (hhead htail)
    rw [heq,append_assoc,cons_append]

lemma wrap (h : Layout size mem head es tail) (hle : head≤tail) (hword : word mem tail=e.length)
    (hpast : size<tail+e.length) (hw : tail+4 ≤ size) (hlt : tail+e.length<2^32)
    (he : EntryAt mem 0 e) (hhead : 4+e.length<head) :
    Layout size mem head (es++[e]) (4+e.length) := by
  cases h with
  | linear hes htail => exact .wrapped rfl hes hword hpast hw hlt he (.nil _) hhead
  | wrapped _ _ _ _ _ _ _ _ htail => omega

lemma first (h : Layout size mem head (e::es) tail) : word mem head=e.length ∧ head+4 ≤ size ∧
    (size<head+e.length ∧ head+e.length<2^32 ∧ EntryAt mem 0 e ∧ 4+e.length ≤ size ∧
        Layout size mem (4+e.length) es tail ∧ Advance head (4+e.length) tail ∨
      head+4+e.length ≤ size ∧ EntryAt mem head e ∧ Layout size mem (head+4+e.length) es tail ∧
        Advance head (head+4+e.length) tail) := by
  cases h with
  | linear hes htail =>
    cases hes with
    | cons he hes =>
      have hle := hes.le
      refine ⟨he.1,by omega,Or.inr ⟨by omega,he,.linear hes htail,Or.inl ⟨by omega,by omega,hle⟩⟩⟩
  | @wrapped w e' as bs heq has hword hpast hw hlt he hbs htail =>
    have hle' := hbs.le
    cases has with
    | nil =>
      obtain ⟨rfl,rfl⟩ := List.cons.inj heq
      exact ⟨hword,hw,Or.inl ⟨hpast,hlt,he,by omega,.linear hbs (by omega),
        Or.inr ⟨htail,Or.inr hle'⟩⟩⟩
    | cons hfirst has =>
      obtain ⟨rfl,rfl⟩ := List.cons.inj heq
      have hle := has.le
      refine ⟨hfirst.1,by omega,Or.inr ⟨by omega,hfirst,
        .wrapped rfl has hword hpast hw hlt he hbs (by omega),Or.inr ⟨htail,Or.inl (by omega)⟩⟩⟩

end Layout
/-! ### Stores of the producer -/

/-- When an entry that is accepted is stored where the consumer looks for it: its sizes do not
overflow, and where it does not fit before the end of the queue, the size that is left there
leads past the end. -/
def PlacedWell (size head tail : ℕ) (data : List UInt8) : Prop :=
  data.length+4<2^32 ∧ (head≤tail → tail+data.length+4<2^32 ∧
      (tail+data.length+4<size ∨ size<tail+data.length ∧ tail+4 ≤ size))

/-- What a producer has left to store, and where the entry is then. -/
structure Storing (size : ℕ) (mem : ℕ → UInt8) (head tail : ℕ) (data : List UInt8)
    (todo : List (ℕ × UInt8)) (newTail : ℕ) : Prop where
  free : ∀ s,s∈todo → Free head tail s.1 ∧ s.1<size
  stored : EntryAt (store mem todo) tail data ∧ newTail=tail+4+data.length ∧
      newTail ≤ size ∧ (tail<head → newTail<head) ∨
    EntryAt (store mem todo) 0 data ∧ newTail=4+data.length ∧ head≤tail ∧ newTail<head ∧
      word (store mem todo) tail=data.length ∧ size<tail+data.length ∧ tail+4 ≤ size ∧
      tail+data.length<2^32

variable {todo : List (ℕ × UInt8)} {mem : ℕ → UInt8}

lemma word_store {o n : ℕ} (hn : n<2^32)
    (hdisj : ∀ s,s∈todo → s.1<o ∨ o+4 ≤ s.1) :
    word (store mem (storesAt o (Lib.Bytes.toBytes 4 n)++todo)) o=n := by
  have hlen : (Lib.Bytes.toBytes 4 n).length=4 := Lib.Bytes.length_toBytes 4 n
  have hbytes := bytesFrom_storesAt mem o (Lib.Bytes.toBytes 4 n)
  rw [hlen] at hbytes
  rw [word,store_append,bytesFrom_store_of_disjoint hdisj,hbytes,Lib.Bytes.ofBytes_toBytes]
  exact mod_eq_of_lt hn

lemma mem_storesWord {o n : ℕ} {s : ℕ × UInt8}
    (h : s∈storesAt o (Lib.Bytes.toBytes 4 n)) : o ≤ s.1 ∧ s.1<o+4 := by
  have := mem_storesAt h
  rwa [Lib.Bytes.length_toBytes] at this

lemma place_spec {size head head₀ tail newTail : ℕ} {data : List UInt8}
    (hplace : place size head₀ tail data=some (todo,newTail))
    (hwell : PlacedWell size head₀ tail data) (hsize : size<2^32)
    (hold : head₀ ≤ size)
    (hseen : head₀≤tail ∧ head₀≤head ∧ head≤tail ∨ tail<head₀ ∧ (head≤tail ∨ head₀≤head)) :
    Storing size mem head tail data todo newTail := by
  obtain ⟨hlen,hwell⟩ := hwell
  have hentry : (data.length+entryHeaderSize)%2^32=data.length+4 := mod_eq_of_lt hlen
  have happend : EntryAt (store mem (storesAt tail (Lib.Bytes.toBytes 4 data.length) ++
      storesAt (tail+entryHeaderSize) data)) tail data := by
    refine ⟨word_store (by omega) fun s hs => Or.inr (mem_storesAt hs).1,?_⟩
    rw [store_append]
    exact bytesFrom_storesAt _ _ _
  have hmem : ∀ s,s∈storesAt tail (Lib.Bytes.toBytes 4 data.length) ++
      storesAt (tail+entryHeaderSize) data → tail ≤ s.1 ∧ s.1<tail+4+data.length := by
    intro s hs
    rcases mem_append.mp hs with hs | hs
    · have := mem_storesWord hs
      omega
    · have := mem_storesAt hs
      rw [entryHeaderSize] at this
      omega
  unfold place at hplace
  simp only [hentry] at hplace
  split_ifs at hplace with hle hfits hroom hroom
  · have htotal := (hwell hle).1
    rw [mod_eq_of_lt (by omega)] at hplace hfits
    cases hplace
    refine ⟨fun s hs => ?_,Or.inl ⟨happend,by omega,by omega,fun hlt => by omega⟩⟩
    have := hmem s hs
    exact ⟨Or.inl ⟨by omega,by omega⟩,by omega⟩
  · obtain ⟨htotal,hend⟩ := hwell hle
    rw [mod_eq_of_lt (by omega)] at hfits
    cases hplace
    have hend := hend.resolve_left (by omega)
    have hwrap : head₀≤head ∧ head≤tail := by
      rcases hseen with hseen | hseen
      · exact hseen.2
      · omega
    have hdata : ∀ s,s∈storesAt entryHeaderSize data → 4 ≤ s.1 ∧ s.1<4+data.length :=
      fun s hs => mem_storesAt hs
    refine ⟨fun s hs => ?_,Or.inr ⟨⟨?_,?_⟩,by omega,hwrap.2,by omega,?_,hend.1,hend.2,by omega⟩⟩
    · rcases mem_append.mp hs with hs | hs
      · rcases mem_append.mp hs with hs | hs
        · have := mem_storesWord hs
          exact ⟨Or.inl ⟨hwrap.2,by omega⟩,by omega⟩
        · have := mem_storesWord hs
          exact ⟨Or.inl ⟨hwrap.2,by omega⟩,by omega⟩
      · have := hdata s hs
        exact ⟨Or.inl ⟨hwrap.2,by omega⟩,by omega⟩
    · rw [append_assoc]
      refine word_store (by omega) fun s hs => ?_
      rcases mem_append.mp hs with hs | hs
      · have := mem_storesWord hs
        omega
      · have := hdata s hs
        omega
    · rw [store_append]
      exact bytesFrom_storesAt _ _ _
    · rw [append_assoc,store_append]
      refine word_store (by omega) fun s hs => ?_
      have := hdata s hs
      omega
  · rw [mod_eq_of_lt (by omega)] at hplace
    cases hplace
    have hlow : head≤tail ∨ head₀≤head := by
      rcases hseen with hseen | hseen
      · omega
      · exact hseen.2
    refine ⟨fun s hs => ?_,Or.inl ⟨happend,by omega,by omega,fun hlt => by omega⟩⟩
    have := hmem s hs
    refine ⟨?_,by omega⟩
    rcases hlow with hlow | hlow
    · exact Or.inl ⟨hlow,by omega⟩
    · by_cases hht : head≤tail
      · exact Or.inl ⟨hht,by omega⟩
      · exact Or.inr ⟨by omega,by omega,by omega⟩

lemma Free.advance {head head' tail o : ℕ} (h : Free head tail o)
    (hadv : Advance head head' tail) : Free head' tail o := by
  unfold Free Advance at *
  omega

lemma Storing.advance {size head head' tail newTail : ℕ} {data : List UInt8}
    (h : Storing size mem head tail data todo newTail)
    (hadv : Advance head head' tail) : Storing size mem head' tail data todo newTail := by
  refine ⟨fun s hs => ⟨(h.free s hs).1.advance hadv,(h.free s hs).2⟩,?_⟩
  unfold Advance at hadv
  rcases h.stored with ⟨hentry,hnew,hle,hlt⟩ | ⟨hentry,hnew,hht,hlt,hrest⟩
  · exact Or.inl ⟨hentry,hnew,hle,by omega⟩
  · exact Or.inr ⟨hentry,hnew,by omega,by omega,hrest⟩

end Darwin.IOKit

/-! The invariant of a data queue under the steps of its producer and its consumer. -/
namespace Darwin.IOKit
open Lib.ByteStore

lemma Layout.head_le {size head tail : ℕ} {mem : ℕ → UInt8} {es : List (List UInt8)}
    (h : Layout size mem head es tail) : head ≤ size ∧ tail ≤ size := by
  cases h with
  | linear hes htail =>
    have := hes.le
    omega
  | wrapped _ has _ _ hw _ _ _ htail =>
    have := has.le
    omega

def Seen (q : DataQueue) (head₀ : ℕ) : Prop :=
  head₀≤q.queueSize ∧ (head₀≤q.tail ∧ head₀≤q.head ∧ q.head≤q.tail ∨
    q.tail<head₀ ∧ (q.head≤q.tail ∨ head₀≤q.head))

def Located (q : DataQueue) (e : List UInt8) (entry newHead : ℕ) : Prop :=
  q.queueSize<q.head+e.length ∧ entry=0 ∧ newHead=4+e.length ∨
    q.head+4+e.length≤q.queueSize ∧ entry=q.head ∧ newHead=q.head+4+e.length

lemma Located.spec {q : DataQueue} {e : List UInt8} {rest : List (List UInt8)}
    {entry newHead : ℕ} (hloc : Located q e entry newHead)
    (h : Layout q.queueSize q.queue q.head (e::rest) q.tail) :
    EntryAt q.queue entry e ∧ entry+4+e.length≤q.queueSize ∧
      Layout q.queueSize q.queue newHead rest q.tail ∧ Advance q.head newHead q.tail := by
  obtain ⟨-,-,hfirst⟩ := h.first
  rcases hloc with ⟨hpast,rfl,rfl⟩ | ⟨hle,rfl,rfl⟩
  · rcases hfirst with ⟨-,-,he,hsize,hrest⟩ | ⟨hle,-⟩
    · exact ⟨he,by omega,hrest⟩
    · omega
  · rcases hfirst with ⟨hpast,-⟩ | ⟨-,he,hrest⟩
    · omega
    · exact ⟨he,hle,hrest⟩

namespace QueueState

def ProducerInv (q : DataQueue) : Producer → Prop
  | .idle => True
  | .hasHead _ head₀ => Seen q head₀
  | .hasTail _ head₀ tail₀ => tail₀=q.tail ∧ Seen q head₀
  | .storing data todo newTail => Storing q.queueSize q.queue q.head q.tail data todo newTail

def ConsumerInv (q : DataQueue) (es : List (List UInt8)) : Consumer → Prop
  | .idle => True
  | .hasHead _ head => head=q.head
  | .nonempty _ head => head=q.head ∧ es≠[]
  | .located _ entry newHead => ∃ e rest,es=e::rest ∧ Located q e entry newHead
  | .copying entry size newHead data => ∃ e rest,es=e::rest ∧ Located q e entry newHead ∧
      size=e.length ∧ data.length≤e.length ∧ data=e.take data.length
  | .taking data newHead => ∃ e rest entry,es=e::rest ∧ Located q e entry newHead ∧
      (data=none ∨ data=some e)

/-- What was delivered are the entries `taken`, and the entries `es` are in the queue. -/
structure Inv (s : QueueState) (taken es : List (List UInt8)) : Prop where
  size : s.q.queueSize<2^32
  accepted : s.accepted=taken++es
  delivered : List.Forall₂ (fun d e => d=none ∨ d=some e) s.delivered taken
  layout : Layout s.q.queueSize s.q.queue s.q.head es s.q.tail
  producer : ProducerInv s.q s.producer
  consumer : ConsumerInv s.q es s.consumer
  inside : s.inside=true

def Careful (s : QueueState) : QueueAction → Prop
  | .produce => ∀ data head tail,s.producer=.hasTail data head tail →
      (place s.q.queueSize head tail data).isSome → PlacedWell s.q.queueSize head tail data
  | _ => True

variable {taken es : List (List UInt8)}

lemma Inv.access {s : QueueState} (h : Inv s taken es) {o n : ℕ}
    (hon : o+n ≤ s.q.queueSize) : (s.access o n).inside=true := by
  simp only [QueueState.access,h.inside,Bool.true_and,decide_eq_true_eq]
  exact hon

lemma ConsumerInv.mono {q q' : DataQueue} {es : List (List UInt8)} {c : Consumer}
    (h : ConsumerInv q es c) (hsize : q'.queueSize=q.queueSize) (hhead : q'.head=q.head)
    (more : List (List UInt8)) : ConsumerInv q' (es++more) c := by
  have hloc : ∀ e entry newHead,Located q e entry newHead → Located q' e entry newHead := by
    intro e entry newHead hl
    unfold Located at hl ⊢
    rwa [hsize,hhead]
  cases c with
  | idle => trivial
  | hasHead => exact h.trans hhead.symm
  | nonempty => exact ⟨h.1.trans hhead.symm,append_ne_nil_of_left_ne_nil h.2 _⟩
  | located =>
    obtain ⟨e,rest,rfl,hl⟩ := h
    exact ⟨e,rest++more,rfl,hloc _ _ _ hl⟩
  | copying =>
    obtain ⟨e,rest,rfl,hl,hdata⟩ := h
    exact ⟨e,rest++more,rfl,hloc _ _ _ hl,hdata⟩
  | taking =>
    obtain ⟨e,rest,entry,rfl,hl,hdata⟩ := h
    exact ⟨e,rest++more,entry,rfl,hloc _ _ _ hl,hdata⟩

lemma Inv.produce {s s' : QueueState} (h : Inv s taken es)
    (hcareful : s.Careful .produce) (hstep : s.produce=some s') : ∃ es',Inv s' taken es' := by
  have hprod := h.producer
  unfold QueueState.produce at hstep
  rcases hp : s.producer with _ | ⟨data,head₀⟩ | ⟨data,head₀,tail₀⟩ | ⟨data,todo,newTail⟩
  · simp only [hp] at hstep
    cases hstep
  · simp only [hp] at hstep hprod
    cases hstep
    exact ⟨es,h.size,h.accepted,h.delivered,h.layout,⟨rfl,hprod⟩,h.consumer,h.inside⟩
  · simp only [hp] at hstep hprod
    obtain ⟨rfl,hseen⟩ := hprod
    rcases hplace : place s.q.queueSize head₀ s.q.tail data with _ | ⟨todo,newTail⟩
    · simp only [hplace] at hstep
      cases hstep
      exact ⟨es,h.size,h.accepted,h.delivered,h.layout,trivial,h.consumer,h.inside⟩
    · simp only [hplace] at hstep
      cases hstep
      have hwell := hcareful data head₀ s.q.tail hp (by rw [hplace]; rfl)
      exact ⟨es,h.size,h.accepted,h.delivered,h.layout,
        place_spec hplace hwell h.size hseen.1 hseen.2,h.consumer,h.inside⟩
  · rcases todo with _ | ⟨⟨o,b⟩,todo⟩
    · simp only [hp] at hstep hprod
      cases hstep
      refine ⟨es++[data],h.size,?_,h.delivered,?_,trivial,h.consumer.mono rfl rfl [data],h.inside⟩
      · change s.accepted++[data]=_
        rw [h.accepted,append_assoc]
      · rcases hprod.stored with ⟨he,rfl,hle,hlt⟩ | ⟨he,rfl,hht,hlt,hword,hpast,hw,htotal⟩
        · exact h.layout.append he hle hlt
        · exact h.layout.wrap hht hword hpast hw htotal he hlt
    · simp only [hp] at hstep hprod
      cases hstep
      obtain ⟨hfree,hlt⟩ := hprod.free (o,b) mem_cons_self
      refine ⟨es,h.size,h.accepted,h.delivered,h.layout.update hfree b,
        ⟨fun t ht => hprod.free t (mem_cons_of_mem _ ht),hprod.stored⟩,?_,h.access hlt⟩
      have hmono : ConsumerInv {s.q with queue := update s.q.queue o b} (es++[])
        s.consumer := h.consumer.mono rfl rfl []
      rwa [append_nil] at hmono

lemma ProducerInv.advance {q : DataQueue} {newHead : ℕ} {p : Producer} (h : ProducerInv q p)
    (hadv : Advance q.head newHead q.tail) : ProducerInv {q with head := newHead} p := by
  have hseen : ∀ head₀,Seen q head₀ → Seen {q with head := newHead} head₀ := by
    intro head₀ hs
    unfold Advance at hadv
    unfold Seen at hs ⊢
    dsimp only
    omega
  cases p with
  | idle => trivial
  | hasHead => exact hseen _ h
  | hasTail => exact ⟨h.1,hseen _ h.2⟩
  | storing => exact Storing.advance h hadv

lemma Inv.consume {s s' : QueueState} (h : Inv s taken es)
    (hstep : s.consume=some s') : ∃ taken' es',Inv s' taken' es' := by
  have hcons := h.consumer
  unfold QueueState.consume at hstep
  rcases hc : s.consumer with _ | ⟨buffer,head⟩ | ⟨buffer,head⟩ | ⟨buffer,entry,newHead⟩ |
    ⟨entry,size,newHead,data⟩ | ⟨data,newHead⟩
  · simp only [hc] at hstep
    cases hstep
  · simp only [hc] at hstep hcons
    cases hstep
    refine ⟨taken,es,h.size,h.accepted,h.delivered,h.layout,h.producer,?_,h.inside⟩
    change ConsumerInv s.q es (if head≠s.q.tail then _ else _)
    split_ifs with hne
    · exact ⟨hcons,fun hnil => hne (hcons.trans (h.layout.eq_nil_iff.mp hnil))⟩
    · trivial
  · simp only [hc] at hstep hcons
    obtain ⟨rfl,hne⟩ := hcons
    obtain ⟨e,rest,rfl⟩ := exists_cons_of_ne_nil hne
    have hsize := h.size
    obtain ⟨hword,hhead,hfirst⟩ := h.layout.first
    have hin := h.access hhead
    rw [hword] at hstep
    change (if s.q.queueSize<(s.q.head+e.length)%2^32 then _ else _)=_ at hstep
    rcases hfirst with ⟨hpast,hlt,he,hle,-⟩ | ⟨hle,he,-⟩
    · rw [if_pos (by rw [mod_eq_of_lt hlt]; exact hpast)] at hstep
      cases hstep
      refine ⟨taken,e::rest,h.size,h.accepted,h.delivered,h.layout,h.producer,
        ⟨e,rest,rfl,Or.inl ⟨hpast,rfl,?_⟩⟩,?_⟩
      · change (word s.q.queue 0+4)%2^32=_
        rw [he.1,mod_eq_of_lt (by omega),add_comm]
      · change ((s.access s.q.head 4).inside && decide (0+4 ≤ s.q.queueSize))=true
        rw [hin,Bool.true_and,decide_eq_true_eq]
        omega
    · rw [if_neg (by rw [mod_eq_of_lt (by omega)]; omega)] at hstep
      cases hstep
      refine ⟨taken,e::rest,h.size,h.accepted,h.delivered,h.layout,h.producer,
        ⟨e,rest,rfl,Or.inr ⟨hle,rfl,?_⟩⟩,hin⟩
      rw [entryHeaderSize,mod_eq_of_lt (by omega)]
      exact add_right_comm _ _ _
  · simp only [hc] at hstep hcons
    obtain ⟨e,rest,rfl,hloc⟩ := hcons
    obtain ⟨he,hle,-⟩ := hloc.spec h.layout
    cases buffer with
    | noData =>
      cases hstep
      exact ⟨taken,e::rest,h.size,h.accepted,h.delivered,h.layout,h.producer,
        ⟨e,rest,entry,rfl,hloc,Or.inl rfl⟩,h.inside⟩
    | noSize =>
      cases hstep
      exact ⟨taken,e::rest,h.size,h.accepted,h.delivered,h.layout,h.producer,trivial,h.inside⟩
    | bytes dataSize =>
      have hin := h.access (o := entry) (n := 4) (by omega)
      dsimp only at hstep
      split_ifs at hstep
      · cases hstep
        exact ⟨taken,e::rest,h.size,h.accepted,h.delivered,h.layout,h.producer,
          ⟨e,rest,rfl,hloc,he.1,zero_le _,rfl⟩,hin⟩
      · cases hstep
        exact ⟨taken,e::rest,h.size,h.accepted,h.delivered,h.layout,h.producer,trivial,hin⟩
  · simp only [hc] at hstep hcons
    obtain ⟨e,rest,rfl,hloc,rfl,hlen,hdata⟩ := hcons
    obtain ⟨he,hle,-⟩ := hloc.spec h.layout
    split_ifs at hstep with hlt
    · cases hstep
      have hnext : data++[s.q.queue (entry+entryHeaderSize+data.length)] =
          e.take (data.length+1) := by
        rw [←he.2,take_bytesFrom hlt,bytesFrom_succ,←take_bytesFrom hlt.le,he.2,←hdata]
        rfl
      refine ⟨taken,e::rest,h.size,h.accepted,h.delivered,h.layout,h.producer,
        ⟨e,rest,rfl,hloc,rfl,?_,?_⟩,h.access ?_⟩
      · rw [length_append]
        exact hlt
      · rw [length_append]
        exact hnext
      · rw [entryHeaderSize]
        omega
    · cases hstep
      refine ⟨taken,e::rest,h.size,h.accepted,h.delivered,h.layout,h.producer,
        ⟨e,rest,entry,rfl,hloc,Or.inr ?_⟩,h.inside⟩
      rw [hdata,take_of_length_le (not_lt.mp hlt)]
  · simp only [hc] at hstep hcons
    obtain ⟨e,rest,entry,rfl,hloc,hdata⟩ := hcons
    obtain ⟨-,-,hrest,hadv⟩ := hloc.spec h.layout
    cases hstep
    refine ⟨taken++[e],rest,h.size,?_,?_,hrest,h.producer.advance hadv,trivial,h.inside⟩
    · change s.accepted=_
      rw [h.accepted,append_assoc,singleton_append]
    · exact rel_append h.delivered (.cons hdata .nil)

lemma Inv.step {s s' : QueueState} (h : Inv s taken es)
    {a : QueueAction} (hcareful : s.Careful a) (hstep : s.step a=some s') :
    ∃ taken' es',Inv s' taken' es' := by
  cases a with
  | enqueue data =>
    unfold QueueState.step at hstep
    rcases hp : s.producer with _ | _ | _ | _
    · simp only [hp,ite_none_right_eq_some,some.injEq] at hstep
      rw [←hstep.2]
      have hle := h.layout.head_le
      refine ⟨taken,es,h.size,h.accepted,h.delivered,h.layout,⟨hle.1,?_⟩,h.consumer,h.inside⟩
      dsimp only
      omega
    all_goals
      simp only [hp] at hstep
      cases hstep
  | produce => exact ⟨taken,h.produce hcareful hstep⟩
  | dequeue buffer =>
    unfold QueueState.step at hstep
    rcases hc : s.consumer with _ | _ | _ | _ | _ | _
    · simp only [hc,some.injEq] at hstep
      rw [←hstep]
      exact ⟨taken,es,h.size,h.accepted,h.delivered,h.layout,h.producer,rfl,h.inside⟩
    all_goals
      simp only [hc] at hstep
      cases hstep
  | consume => exact h.consume hstep

/-- The states after any steps of both sides, each of which meets the condition. -/
inductive Run (size : ℕ) : QueueState → Prop
  | init (queue : ℕ → UInt8) : Run size (init size queue)
  | step {s s' : QueueState} (a : QueueAction) (hrun : Run size s) (hcareful : s.Careful a)
      (hstep : s.step a=some s') : Run size s'

lemma Run.inv {size : ℕ} (hsize : size<2^32) {s : QueueState} (h : Run size s) :
    ∃ taken es,Inv s taken es := by
  induction h with
  | init queue =>
    exact ⟨[],[],hsize,rfl,.nil,.linear (.nil 0) (zero_le _),trivial,trivial,rfl⟩
  | step a _ hcareful hstep ih =>
    obtain ⟨taken,es,hinv⟩ := ih
    exact hinv.step hcareful hstep

/-- The consumer has obtained the first accepted entries, in order and with their bytes, unless
it asked for none; the others are in the queue, and an empty queue has none. -/
def Faithful (s : QueueState) : Prop :=
  (∃ taken es,s.accepted=taken++es ∧
    List.Forall₂ (fun d e => d=none ∨ d=some e) s.delivered taken ∧
    (es=[] ↔ s.q.head=s.q.tail)) ∧ s.inside=true

/-- In every run whose steps meet the condition the consumer obtains what was accepted, no access
leaves the queue, and an `enqueue` that is rejected changes nothing. -/
theorem run_faithful {size : ℕ} (hsize : size<2^32) {s : QueueState} (h : Run size s) : Faithful s ∧
    ∀ data head tail s',s.producer=.hasTail data head tail → s.step .produce=some s' →
      s'.producer=.idle → s'={s with producer := .idle} := by
  obtain ⟨taken,es,hinv⟩ := h.inv hsize
  refine ⟨⟨⟨taken,es,hinv.accepted,hinv.delivered,hinv.layout.eq_nil_iff⟩,hinv.inside⟩,?_⟩
  intro data head tail s' hp hstep hidle
  simp only [QueueState.step,QueueState.produce,hp] at hstep
  rcases hplace : place s.q.queueSize head tail data with _ | ⟨todo,newTail⟩
  · simp only [hplace,some.injEq] at hstep
    exact hstep.symm
  · simp only [hplace,some.injEq] at hstep
    rw [←hstep] at hidle
    cases hidle

def runActions (size : ℕ) (actions : List QueueAction) : Option QueueState :=
  actions.foldlM step (init size fun _ => 0)

/-- An entry is taken out and another one wraps around, with exactly its data left before the
end of the queue. -/
def shortWrap : List QueueAction :=
  .enqueue [1,1]::replicate 9 .produce ++ .dequeue (.bytes 16)::replicate 7 .consume ++
    .enqueue [7]::replicate 12 .produce ++ .dequeue (.bytes 16)::replicate 6 .consume

set_option maxRecDepth 20000 in
/-- The consumer then takes the bytes at the end of the queue for the entry. -/
theorem shortWrap_not_faithful : ∃ s,runActions 11 shortWrap=some s ∧ ¬Faithful s := by
  refine ⟨_,rfl,?_⟩
  rintro ⟨⟨taken,es,haccepted,hdelivered,-⟩,-⟩
  change List.Forall₂ _ [some [1,1],some [0]] taken at hdelivered
  change [[1,1],[7]]=taken++es at haccepted
  obtain ⟨x,taken,-,hrest,rfl⟩ := forall₂_cons_left_iff.mp hdelivered
  obtain ⟨y,taken,hy,-,rfl⟩ := forall₂_cons_left_iff.mp hrest
  rw [cons_append,cons_append,List.cons.injEq,List.cons.injEq] at haccepted
  rw [←haccepted.2.1] at hy
  exact absurd hy (by decide)

/-- A producer that has decided where an entry goes. -/
theorem run_faithful_placed :
    ∃ s,runActions 16 [.enqueue [7],.produce,.produce]=some s ∧ Faithful s := by
  refine ⟨_,rfl,(run_faithful (by decide : 16<2^32) ?_).1⟩
  refine .step .produce (.step .produce (.step (.enqueue [7]) (.init fun _ => 0) trivial rfl)
    ?_ rfl) ?_ rfl
  · intro data head tail hp
    cases hp
  · intro data head tail hp _
    cases hp
    exact ⟨by decide,fun _ => ⟨by decide,Or.inl (by decide)⟩⟩

end QueueState

end Darwin.IOKit
