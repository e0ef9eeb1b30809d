import Darwin.Lib.Bytes

/-! Memories of bytes and stores into them, one byte at a time. -/
open List Function
namespace Darwin.Lib.ByteStore

def storesAt : ℕ → List UInt8 → List (ℕ × UInt8)
  | _,[] => []
  | o,b::l => (o,b)::storesAt (o+1) l

def store (mem : ℕ → UInt8) (stores : List (ℕ × UInt8)) : ℕ → UInt8 :=
  stores.foldl (fun mem s => update mem s.1 s.2) mem

def bytesFrom (mem : ℕ → UInt8) (o : ℕ) : ℕ → List UInt8
  | 0 => []
  | n+1 => mem o::bytesFrom mem (o+1) n

def word (mem : ℕ → UInt8) (o : ℕ) : ℕ := Bytes.ofBytes (bytesFrom mem o 4)

variable {mem mem' : ℕ → UInt8} {o p n : ℕ} {l : List UInt8}

@[simp] lemma store_cons (s : ℕ × UInt8) (stores : List (ℕ × UInt8)) :
    store mem (s::stores)=store (update mem s.1 s.2) stores := rfl

lemma store_append (xs ys : List (ℕ × UInt8)) : store mem (xs++ys)=store (store mem xs) ys :=
  foldl_append

lemma mem_storesAt {s : ℕ × UInt8} (h : s∈storesAt o l) : o ≤ s.1 ∧ s.1<o+l.length := by
  induction l generalizing o with
  | nil => exact absurd h not_mem_nil
  | cons b l ih =>
    rw [length_cons]
    rcases mem_cons.mp h with rfl | h
    · exact ⟨le_rfl,by omega⟩
    · have := ih h
      omega

lemma store_of_forall_ne {stores : List (ℕ × UInt8)} (h : ∀ s,s∈stores → s.1≠p) :
    store mem stores p=mem p := by
  induction stores generalizing mem with
  | nil => rfl
  | cons s stores ih =>
    rw [store_cons,ih fun s hs => h s (mem_cons_of_mem _ hs)]
    exact update_of_ne (Ne.symm (h s mem_cons_self)) _ _

lemma bytesFrom_congr (h : ∀ p,o≤p → p<o+n → mem' p=mem p) :
    bytesFrom mem' o n=bytesFrom mem o n := by
  induction n generalizing o with
  | zero => rfl
  | succ n ih =>
    rw [bytesFrom,bytesFrom,h o le_rfl (by omega),ih fun p hop hp => h p (by omega) (by omega)]

lemma bytesFrom_storesAt (mem : ℕ → UInt8) (o : ℕ) (l : List UInt8) :
    bytesFrom (store mem (storesAt o l)) o l.length=l := by
  induction l generalizing mem o with
  | nil => rfl
  | cons b l ih =>
    rw [length_cons,bytesFrom,storesAt,store_cons,ih]
    congr 1
    rw [store_of_forall_ne fun s hs => by have := mem_storesAt hs; omega,update_self]

lemma bytesFrom_store_of_disjoint {stores : List (ℕ × UInt8)}
    (h : ∀ s,s∈stores → s.1<o ∨ o+n ≤ s.1) : bytesFrom (store mem stores) o n=bytesFrom mem o n :=
  bytesFrom_congr fun p hop hp => store_of_forall_ne fun s hs => by
    have := h s hs
    omega

lemma take_bytesFrom {k : ℕ} (h : k≤n) : (bytesFrom mem o n).take k=bytesFrom mem o k := by
  induction k generalizing o n with
  | zero => rfl
  | succ k ih =>
    obtain ⟨m,rfl⟩ := Nat.exists_eq_add_one_of_ne_zero (Nat.ne_zero_of_lt h)
    rw [bytesFrom,bytesFrom,take_succ_cons,ih (Nat.le_of_succ_le_succ h)]

lemma bytesFrom_succ (mem : ℕ → UInt8) (o n : ℕ) :
    bytesFrom mem o (n+1)=bytesFrom mem o n++[mem (o+n)] := by
  induction n generalizing o with
  | zero => rfl
  | succ n ih =>
    rw [bytesFrom,ih,show o+1+n=o+(n+1) by omega]
    rfl

end Darwin.Lib.ByteStore
