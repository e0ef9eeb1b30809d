import Mathlib.Algebra.Order.BigOperators.Group.List
import Mathlib.Algebra.Order.Ring.Nat

/-! Finite maps, kept as lists in the order of their keys. -/
open List Nat
namespace Darwin.Lib

variable {κ β : Type} [LinearOrder κ]

/-- A map: its entries have ascending keys. -/
structure SortedMap (κ β : Type) [LinearOrder κ] where
  entries : List (κ × β)
  sorted : entries.Pairwise fun x y => x.1<y.1

namespace SortedMap

section Entries

def getEntry (k : κ) : List (κ × β) → Option β
  | [] => none
  | e::es => if k=e.1 then some e.2 else getEntry k es

def putEntry (k : κ) (v : β) : List (κ × β) → List (κ × β)
  | [] => [(k,v)]
  | e::es => if k<e.1 then (k,v)::e::es else if k=e.1 then (k,v)::es else e::putEntry k v es

variable {k j : κ} {v : β} {es : List (κ × β)}

lemma mem_of_getEntry (h : getEntry k es=some v) : (k,v)∈es := by
  induction es with
  | nil => cases h
  | cons e es ih =>
    rw [getEntry] at h
    split_ifs at h with he
    · cases h
      rw [he]
      exact mem_cons_self
    · exact mem_cons_of_mem e (ih h)

lemma getEntry_of_lt (h : ∀ e∈es,k<e.1) : getEntry k es=none := by
  cases hget : getEntry k es with
  | none => rfl
  | some v => exact absurd (h _ (mem_of_getEntry hget)) (lt_irrefl k)

lemma mem_putEntry {e : κ × β} (h : e∈putEntry k v es) : e=(k,v) ∨ e∈es := by
  induction es with
  | nil => exact .inl (mem_singleton.mp h)
  | cons x es ih =>
    rw [putEntry] at h
    split_ifs at h
    · exact mem_cons.mp h
    · exact (mem_cons.mp h).imp_right (mem_cons_of_mem x)
    · rcases mem_cons.mp h with rfl | h
      · exact .inr mem_cons_self
      · exact (ih h).imp_right (mem_cons_of_mem x)

lemma sorted_putEntry (h : es.Pairwise fun x y => x.1<y.1) :
    (putEntry k v es).Pairwise fun x y => x.1<y.1 := by
  induction es with
  | nil => exact pairwise_singleton _ _
  | cons e es ih =>
    obtain ⟨he,hes⟩ := pairwise_cons.mp h
    rw [putEntry]
    split_ifs with hlt heq
    · refine pairwise_cons.mpr ⟨fun x hx => ?_,h⟩
      rcases mem_cons.mp hx with rfl | hx
      · exact hlt
      · exact hlt.trans (he x hx)
    · exact pairwise_cons.mpr ⟨fun x hx => heq▸he x hx,hes⟩
    · refine pairwise_cons.mpr ⟨fun x hx => ?_,ih hes⟩
      rcases mem_putEntry hx with rfl | hx
      · exact lt_of_le_of_ne (not_lt.mp hlt) (Ne.symm heq)
      · exact he x hx

lemma getEntry_putEntry (h : es.Pairwise fun x y => x.1<y.1) :
    getEntry j (putEntry k v es)=if j=k then some v else getEntry j es := by
  induction es with
  | nil => rfl
  | cons e es ih =>
    obtain ⟨he,hes⟩ := pairwise_cons.mp h
    rw [putEntry]
    by_cases hlt : k<e.1
    · rw [if_pos hlt,getEntry]
    · rw [if_neg hlt]
      by_cases heq : k=e.1
      · rw [if_pos heq,getEntry,getEntry,heq]
        split_ifs <;> rfl
      · rw [if_neg heq,getEntry,getEntry,ih hes]
        by_cases hjk : j=k
        · have hje : j≠e.1 := fun hje => heq (hjk.symm.trans hje)
          rw [if_neg hje,if_pos hjk,if_pos hjk]
        · rw [if_neg hjk,if_neg hjk]

lemma getEntry_filter (h : es.Pairwise fun x y => x.1<y.1) :
    getEntry j (es.filter fun e => e.1≠k)=if j=k then none else getEntry j es := by
  induction es with
  | nil => exact (ite_self none).symm
  | cons e es ih =>
    obtain ⟨he,hes⟩ := pairwise_cons.mp h
    rw [filter_cons]
    by_cases hek : e.1=k
    · rw [if_neg (by simpa using hek),ih hes,getEntry,hek]
      split_ifs <;> rfl
    · rw [if_pos (by simpa using hek),getEntry,ih hes,getEntry]
      by_cases hjk : j=k
      · have hje : j≠e.1 := fun hje => hek (hje.symm.trans hjk)
        rw [if_pos hjk,if_neg hje,if_pos hjk]
      · rw [if_neg hjk,if_neg hjk]

lemma filter_putEntry {p : κ → Prop} [DecidablePred p] (hk : ¬p k) (es : List (κ × β)) :
    (putEntry k v es).filter (fun e => p e.1)=es.filter fun e => p e.1 := by
  induction es with
  | nil => simp [putEntry,hk]
  | cons e es ih =>
    rw [putEntry]
    split_ifs with hlt heq
    · simp [hk]
    · have he : ¬p e.1 := heq▸hk
      simp [hk,he]
    · rw [filter_cons,filter_cons,ih]

lemma filter_putEntry_last {p : κ → Prop} [DecidablePred p] (hk : p k)
    (hes : es.Pairwise fun x y => x.1<y.1) (h : ∀ e∈es,p e.1 → e.1<k) :
    (putEntry k v es).filter (fun e => p e.1)=es.filter (fun e => p e.1)++[(k,v)] := by
  induction es with
  | nil => simp [putEntry,hk]
  | cons e es ih =>
    obtain ⟨he,hes⟩ := pairwise_cons.mp hes
    rw [putEntry]
    by_cases hlt : k<e.1
    · have hnone : (e::es).filter (fun e => p e.1)=[] := by
        refine filter_eq_nil_iff.mpr fun x hx hp => ?_
        have hxk := h x hx (of_decide_eq_true hp)
        rcases mem_cons.mp hx with rfl | hx
        · exact lt_asymm hlt hxk
        · exact lt_asymm (hlt.trans (he x hx)) hxk
      rw [if_pos hlt,filter_cons,if_pos (decide_eq_true hk),hnone]
      rfl
    · have hne : k≠e.1 := by
        rintro rfl
        exact lt_irrefl _ (h e mem_cons_self hk)
      rw [if_neg hlt,if_neg hne,filter_cons,filter_cons,
        ih hes fun x hx => h x (mem_cons_of_mem e hx)]
      split_ifs <;> rfl

lemma getEntry_of_mem (h : es.Pairwise fun x y => x.1<y.1) (hmem : (k,v)∈es) :
    getEntry k es=some v := by
  induction es with
  | nil => cases hmem
  | cons e es ih =>
    obtain ⟨he,hes⟩ := pairwise_cons.mp h
    rw [getEntry]
    rcases mem_cons.mp hmem with rfl | hmem
    · rw [if_pos rfl]
    · rw [if_neg (ne_of_gt (he _ hmem)),ih hes hmem]

lemma putEntry_putEntry {w : β} : putEntry k v (putEntry k w es)=putEntry k v es := by
  induction es with
  | nil => simp [putEntry]
  | cons e es ih =>
    rw [putEntry]
    by_cases hlt : k<e.1
    · simp [putEntry,hlt]
    · by_cases heq : k=e.1
      · simp [putEntry,heq]
      · simp [putEntry,hlt,heq,ih]

lemma putEntry_eq_map {w : β} (h : es.Pairwise fun x y => x.1<y.1) (hmem : (k,w)∈es) :
    putEntry k v es=es.map fun e => if e.1=k then (k,v) else e := by
  induction es with
  | nil => cases hmem
  | cons e es ih =>
    obtain ⟨he,hes⟩ := pairwise_cons.mp h
    rw [putEntry,map_cons]
    rcases mem_cons.mp hmem with rfl | hmem
    · rw [if_neg (lt_irrefl k),if_pos rfl,if_pos rfl]
      congr 1
      conv_lhs => rw [←map_id es]
      exact map_congr_left fun x hx => (if_neg (ne_of_gt (he x hx))).symm
    · have hlt : e.1<k := he _ hmem
      rw [if_neg (not_lt.mpr hlt.le),if_neg (ne_of_gt hlt),if_neg (ne_of_lt hlt),ih hes hmem]

end Entries

def empty : SortedMap κ β := ⟨[],List.Pairwise.nil⟩

def get (m : SortedMap κ β) (k : κ) : Option β := getEntry k m.entries

def put (m : SortedMap κ β) (k : κ) (v : β) : SortedMap κ β :=
  ⟨putEntry k v m.entries,sorted_putEntry m.sorted⟩

def erase (m : SortedMap κ β) (k : κ) : SortedMap κ β :=
  ⟨m.entries.filter fun e => e.1≠k,m.sorted.filter _⟩

def next (m : SortedMap κ β) (k : κ) : Option (κ × β) := m.entries.find? fun e => k<e.1

def prev (m : SortedMap κ β) (k : κ) : Option (κ × β) :=
  (m.entries.filter fun e => e.1<k).getLast?

variable (m : SortedMap κ β) (j k : κ) (v : β)

@[simp] lemma get_put : (m.put k v).get j=if j=k then some v else m.get j :=
  getEntry_putEntry m.sorted

lemma put_put (w : β) : (m.put k w).put k v=m.put k v := by simp only [put,putEntry_putEntry]

@[simp] lemma get_erase : (m.erase k).get j=if j=k then none else m.get j :=
  getEntry_filter m.sorted

variable {m : SortedMap κ β}

lemma get_eq_some_iff {k : κ} {v : β} : m.get k=some v ↔ (k,v)∈m.entries :=
  ⟨mem_of_getEntry,getEntry_of_mem m.sorted⟩

lemma next_eq_some {k : κ} {e : κ × β} (h : m.next k=some e) :
    k<e.1 ∧ ∃ before behind,m.entries=before++e::behind ∧ (∀ x∈before,¬k<x.1) ∧
      (∀ x∈before,x.1<e.1) ∧ ∀ x∈behind,e.1<x.1 := by
  obtain ⟨hlt,before,behind,heq,hbefore⟩ := find?_eq_some_iff_append.mp h
  have hsorted := m.sorted
  rw [heq,pairwise_append,pairwise_cons] at hsorted
  obtain ⟨-,⟨hbehind,-⟩,hacross⟩ := hsorted
  refine ⟨of_decide_eq_true hlt,before,behind,heq,fun x hx => ?_,
    fun x hx => hacross x hx e mem_cons_self,hbehind⟩
  simpa using hbefore x hx

lemma next_eq_none {k : κ} (h : m.next k=none) : ∀ e∈m.entries,¬k<e.1 := by
  intro e he
  simpa using find?_eq_none.mp h e he

lemma prev_eq_some {k : κ} {e : κ × β} (h : m.prev k=some e) :
    e∈m.entries ∧ e.1<k ∧ ∀ x∈m.entries,x.1<k → x.1≤e.1 := by
  obtain ⟨before,heq⟩ := getLast?_eq_some_iff.mp h
  have hmem : e∈m.entries.filter fun e => e.1<k := by
    rw [heq]
    exact mem_append_right _ mem_cons_self
  obtain ⟨he,hlt⟩ := mem_filter.mp hmem
  refine ⟨he,of_decide_eq_true hlt,fun x hx hxk => ?_⟩
  have hxmem : x∈m.entries.filter fun e => e.1<k :=
    mem_filter.mpr ⟨hx,decide_eq_true hxk⟩
  have hsorted := m.sorted.filter (p := fun e => e.1<k)
  rw [heq] at hxmem hsorted
  rcases mem_append.mp hxmem with hx | hx
  · exact le_of_lt ((pairwise_append.mp hsorted).2.2 x hx e mem_cons_self)
  · rw [mem_singleton.mp hx]

lemma prev_eq_none {k : κ} (h : m.prev k=none) : ∀ e∈m.entries,¬e.1<k := by
  intro e he
  have hnil := filter_eq_nil_iff.mp (getLast?_eq_none_iff.mp h) e he
  simpa using hnil

lemma exists_bound (f : κ → ℕ) : ∃ b,∀ k,m.get k≠none → f k≤b := by
  refine ⟨(m.entries.map fun e => f e.1).sum,fun k hk => ?_⟩
  obtain ⟨v,hv⟩ := Option.ne_none_iff_exists'.mp hk
  exact le_sum_of_mem (mem_map.mpr ⟨(k,v),mem_of_getEntry hv,rfl⟩)

/-- The first number that entries with ascending keys, from `n` on, do not have. -/
def freshFrom (n : ℕ) : List (ℕ × β) → ℕ
  | [] => n
  | e::es => if n≠e.1 then n else freshFrom (n+1) es

lemma getEntry_freshFrom {n : ℕ} {es : List (ℕ × β)} (h : es.Pairwise fun x y => x.1<y.1)
    (hn : ∀ e∈es,n≤e.1) : getEntry (freshFrom n es) es=none ∧ n≤freshFrom n es := by
  induction es generalizing n with
  | nil => exact ⟨rfl,le_refl n⟩
  | cons e es ih =>
    obtain ⟨he,hes⟩ := pairwise_cons.mp h
    rw [freshFrom]
    split_ifs with hne
    · have hlt := lt_of_le_of_ne (hn e mem_cons_self) hne
      rw [getEntry,if_neg hne]
      exact ⟨getEntry_of_lt fun x hx => hlt.trans (he x hx),le_refl n⟩
    · have heq : n=e.1 := not_not.mp hne
      obtain ⟨hnone,hle⟩ := ih hes (n := n+1) fun x hx => heq▸he x hx
      rw [getEntry,if_neg (by omega)]
      exact ⟨hnone,by omega⟩

def fresh (m : SortedMap ℕ β) : ℕ := freshFrom 0 m.entries

lemma get_fresh (m : SortedMap ℕ β) : m.get m.fresh=none :=
  (getEntry_freshFrom m.sorted fun _ _ => zero_le _).1

end SortedMap

end Darwin.Lib
