import Darwin.Lib.Bytes

/-! Writing fields one after another into an allocated buffer, and reading them back from the
bytes at a pointer. A write past the end of the buffer and a read past the end of the bytes give
nothing. -/
open List Option
namespace Darwin.Lib.Wire

/-- A buffer of `n` bytes, split at the place where the next write goes. -/
structure Buffer (n : ℕ) where
  written : List UInt8
  free : List UInt8
  size : written.length+free.length=n

namespace Buffer

variable {n : ℕ}

def data (b : Buffer n) : List UInt8 := b.written++b.free

@[simp] lemma length_data (b : Buffer n) : b.data.length=n := by rw [data,length_append,b.size]

def malloc (junk : ℕ → UInt8) (n : ℕ) : Buffer n := ⟨[],(range n).map junk,by simp⟩

@[ext] lemma ext_fields {b c : Buffer n} (hw : b.written=c.written) (hf : b.free=c.free) : b=c := by
  cases b
  cases c
  cases hw
  cases hf
  rfl

def advance (b : Buffer n) (bs : List UInt8) (h : bs.length≤b.free.length) : Buffer n where
  written := b.written++bs
  free := b.free.drop bs.length
  size := by
    have := b.size
    simp only [length_append,length_drop]
    omega

def memmove (bs : List UInt8) (b : Buffer n) : Option (Buffer n) :=
  if h : bs.length≤b.free.length then some (b.advance bs h) else none

lemma memmove_append (xs ys : List UInt8) (b : Buffer n) :
    ((b.memmove xs).bind fun b => b.memmove ys)=b.memmove (xs++ys) := by
  by_cases hx : xs.length≤b.free.length
  · have hfree : (b.advance xs hx).free.length=b.free.length-xs.length := length_drop
    rw [memmove,dif_pos hx,bind_some]
    by_cases hy : (xs++ys).length≤b.free.length
    · have hy' : ys.length≤(b.advance xs hx).free.length := by
        rw [length_append] at hy
        omega
      rw [memmove,memmove,dif_pos hy,dif_pos hy']
      congr 1
      ext1
      · exact append_assoc _ _ _
      · change (b.free.drop xs.length).drop ys.length=b.free.drop (xs++ys).length
        rw [drop_drop,length_append]
    · have hy' : ¬ys.length≤(b.advance xs hx).free.length := by
        rw [length_append] at hy
        omega
      rw [memmove,memmove,dif_neg hy,dif_neg hy']
  · have hxy : ¬(xs++ys).length≤b.free.length := by
      rw [length_append]
      omega
    rw [memmove,memmove,dif_neg hx,dif_neg hxy,bind_none]

lemma length_free_malloc (junk : ℕ → UInt8) (n : ℕ) : (malloc junk n).free.length=n := by
  simp [malloc]

lemma memmove_malloc (junk : ℕ → UInt8) (bs : List UInt8) (h : bs.length=n) :
    ∃ b,(malloc junk n).memmove bs=some b ∧ b.written=bs ∧ b.data=bs := by
  have hs : bs.length≤(malloc junk n).free.length := by rw [length_free_malloc,h]
  have hd : (malloc junk n).free.drop bs.length=[] :=
    drop_eq_nil_of_le (by rw [length_free_malloc,h])
  refine ⟨_,dif_pos hs,nil_append _,?_⟩
  change ([]++bs)++(malloc junk n).free.drop bs.length=bs
  rw [hd,append_nil,nil_append]

lemma memmove_malloc_none (junk : ℕ → UInt8) (bs : List UInt8) (h : n<bs.length) :
    (malloc junk n).memmove bs=none := by
  refine dif_neg ?_
  rw [length_free_malloc]
  omega

def Writes (put : Buffer n → Option (Buffer n)) (bs : List UInt8) : Prop :=
  ∀ b,put b=b.memmove bs

lemma writes_memmove (bs : List UInt8) : Writes (n := n) (memmove bs) bs := fun _ => rfl

lemma Writes.bind {f g : Buffer n → Option (Buffer n)} {xs ys : List UInt8} (hf : Writes f xs)
    (hg : Writes g ys) : Writes (fun b => (f b).bind g) (xs++ys) := by
  intro b
  have hgs : g=fun b => b.memmove ys := funext hg
  change (f b).bind g=_
  rw [hf b,hgs,memmove_append]

def each {α : Type} (f : α → Buffer n → Option (Buffer n)) : List α → Buffer n → Option (Buffer n)
  | [],b => some b
  | a::l,b => (f a b).bind (each f l)

lemma writes_each {α : Type} {f : α → Buffer n → Option (Buffer n)} {put : α → List UInt8}
    (h : ∀ a,Writes (f a) (put a)) (l : List α) : Writes (each f l) (l.flatMap put) := by
  induction l with
  | nil =>
    intro b
    have hnil : b.memmove []=some (b.advance [] (Nat.zero_le _)) := dif_pos _
    rw [flatMap_nil,hnil]
    refine congrArg some (Buffer.ext_fields ?_ rfl)
    exact (append_nil _).symm
  | cons a l ih =>
    rw [flatMap_cons]
    exact (h a).bind ih

end Buffer

abbrev Reader := StateT (List UInt8) Option

namespace Reader

variable {α β : Type}

def bytes (n : ℕ) : Reader {l : List UInt8 // l.length=n} := fun l =>
  if h : n≤l.length then some (⟨l.take n,length_take_of_le h⟩,l.drop n) else none

def many (get : Reader α) : (n : ℕ) → Reader {l : List α // l.length=n}
  | 0 => pure ⟨[],rfl⟩
  | n+1 => do
    let a ← get
    let l ← many get n
    pure ⟨a::l.1,by rw [length_cons,l.2]⟩

/-- The read takes exactly these bytes, whatever follows, and gives this value. -/
def Reads (get : Reader α) (bs : List UInt8) (a : α) : Prop :=
  ∀ rest,get (bs++rest)=some (a,rest)

lemma reads_pure (a : α) : Reads (pure a) [] a := fun _ => rfl

variable {get : Reader α} {f : α → Reader β}

lemma Reads.bind {xs ys : List UInt8} {a : α} {b : β}
    (hx : Reads get xs a) (hy : Reads (f a) ys b) : Reads (get >>= f) (xs++ys) b := by
  intro rest
  have hget : get (xs++(ys++rest))=some (a,ys++rest) := hx _
  rw [append_assoc]
  change (get (xs++(ys++rest))).bind (fun p => f p.1 p.2)=_
  rw [hget]
  exact hy rest

lemma Reads.last {xs : List UInt8} {a : α} {b : β}
    (hx : Reads get xs a) (hy : Reads (f a) [] b) : Reads (get >>= f) xs b := by
  have h := hx.bind hy
  rwa [append_nil] at h

lemma reads_bytes (bs : List UInt8) (n : ℕ) (h : bs.length=n) : Reads (bytes n) bs ⟨bs,h⟩ := by
  subst h
  intro rest
  rw [bytes,dif_pos (by simp)]
  simp

lemma reads_many {put : α → List UInt8} (l : List α)
    (h : ∀ a∈l,Reads get (put a) a) (n : ℕ) (hn : l.length=n) :
    Reads (many get n) (l.flatMap put) ⟨l,hn⟩ := by
  induction l generalizing n with
  | nil =>
    subst hn
    exact reads_pure _
  | cons a l ih =>
    subst hn
    rw [flatMap_cons]
    refine (h a mem_cons_self).bind ?_
    exact (ih (fun b hb => h b (mem_cons_of_mem a hb)) l.length rfl).last (reads_pure _)

lemma bind_eq_some_iff {l rest : List UInt8} {b : β} :
    (get >>= f) l=some (b,rest) ↔ ∃ a m,get l=some (a,m) ∧ f a m=some (b,rest) := by
  change (get l).bind (fun p => f p.1 p.2)=_ ↔ _
  rw [Option.bind_eq_some_iff]
  exact ⟨fun ⟨p,hp,hf⟩ => ⟨p.1,p.2,hp,hf⟩,fun ⟨a,m,hp,hf⟩ => ⟨(a,m),hp,hf⟩⟩

def Takes (get : Reader α) (put : α → List UInt8) : Prop :=
  ∀ l a rest,get l=some (a,rest) → l=put a++rest

lemma takes_bytes (n : ℕ) : Takes (bytes n) Subtype.val := by
  intro l a rest h
  rw [bytes] at h
  split_ifs at h with hn
  obtain ⟨rfl,rfl⟩ := Prod.mk.inj (some.inj h)
  exact (take_append_drop n l).symm

lemma takes_many {put : α → List UInt8} (h : Takes get put) (n : ℕ) :
    Takes (many get n) fun l => l.1.flatMap put := by
  induction n with
  | zero =>
    intro l a rest hr
    obtain ⟨rfl,rfl⟩ := Prod.mk.inj (some.inj hr)
    rfl
  | succ n ih =>
    intro l a rest hr
    obtain ⟨b,m,hb,hr⟩ := bind_eq_some_iff.mp hr
    obtain ⟨bs,m',hbs,hr⟩ := bind_eq_some_iff.mp hr
    obtain ⟨rfl,rfl⟩ := Prod.mk.inj (some.inj hr)
    rw [h _ _ _ hb,ih _ _ _ hbs,←append_assoc]
    rfl

end Reader

lemma length_flatMap_eq {α : Type} {f : α → List UInt8} {g : α → ℕ} (l : List α)
    (h : ∀ a,(f a).length=g a) : (l.flatMap f).length=(l.map g).sum := by
  rw [length_flatMap]
  exact congrArg List.sum (map_congr_left fun a _ => h a)

end Darwin.Lib.Wire
