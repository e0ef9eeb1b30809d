import Mathlib.Data.List.Nodup

/-! Doubly linked lists: links in both directions, the two ends, and loops along the links. -/
namespace Darwin.Lib
open Function

structure DoubleList (α : Type*) where
  first : Option α
  last : Option α
  next : α → Option α
  prev : α → Option α

namespace DoubleList
variable {α σ : Type*} {d d' : DoubleList α} {l pre post : List α} {x : α}

def mirror (d : DoubleList α) : DoubleList α := ⟨d.last,d.first,d.prev,d.next⟩

/-- An element is moved to the front; `none` where a null pointer is followed. -/
def moveFirst [DecidableEq α] (d : DoubleList α) (x : α) : Option (DoubleList α) :=
  if d.first=some x then some d
  else
    match d.first,d.prev x with
    | some swap,some before =>
      let next := update d.next before (d.next x)
      let (prev,last) := match d.next x with
        | some after => (update d.prev after (some before),d.last)
        | none => (d.prev,some before)
      some ⟨some x,last,update next x (some swap),update (update prev x none) swap (some x)⟩
    | _,_ => none

/-- A loop along the links that may stop early; `none` where the rounds do not suffice. -/
def loop (d : DoubleList α) (step : σ → α → σ × Bool) : ℕ → Option α → σ → Option σ
  | 0,_,_ => none
  | _+1,none,s => some s
  | n+1,some x,s =>
    if (step s x).2 then some (step s x).1 else d.loop step n (d.next x) (step s x).1

/-- The same loop over a list. -/
def scan (step : σ → α → σ × Bool) : List α → σ → σ
  | [],s => s
  | x::l,s => if (step s x).2 then (step s x).1 else scan step l (step s x).1

/-- The links form the list `l` in both directions. -/
structure Holds (d : DoubleList α) (l : List α) : Prop where
  nodup : l.Nodup
  first : d.first=l.head?
  last : d.last=l.getLast?
  next : ∀ pre x post,l=pre++x::post → d.next x=post.head?
  prev : ∀ pre x post,l=pre++x::post → d.prev x=pre.getLast?

lemma Holds.mirror (h : d.Holds l) : d.mirror.Holds l.reverse where
  nodup := List.nodup_reverse.mpr h.nodup
  first := by rw [List.head?_reverse]; exact h.last
  last := by rw [List.getLast?_reverse]; exact h.first
  next := by
    intro pre x post hl
    have heq : l=post.reverse++x::pre.reverse := by
      rw [←List.reverse_reverse l,hl]
      simp
    exact (h.prev _ _ _ heq).trans List.getLast?_reverse
  prev := by
    intro pre x post hl
    have heq : l=post.reverse++x::pre.reverse := by
      rw [←List.reverse_reverse l,hl]
      simp
    exact (h.next _ _ _ heq).trans List.head?_reverse

lemma Holds.loop (step : σ → α → σ × Bool) {n : ℕ} (s : σ) (pre : List α) (h : d.Holds (pre++l))
    (hn : l.length<n) : d.loop step n l.head? s=some (scan step l s) := by
  induction l generalizing n pre s with
  | nil =>
    obtain ⟨n,rfl⟩ : ∃ m,n=m+1 := ⟨n-1,by omega⟩
    rfl
  | cons x l ih =>
    obtain ⟨n,rfl⟩ : ∃ m,n=m+1 := ⟨n-1,by omega⟩
    rw [List.head?_cons,DoubleList.loop,scan]
    split_ifs with hstop
    · rfl
    · rw [h.next pre x l rfl]
      refine ih _ (pre++[x]) ?_ (by simpa using hn)
      rwa [List.append_assoc]

lemma scan_find (p : α → Bool) :
    scan (fun s x => if p x then (some x,true) else (s,false)) l none=l.find? p := by
  induction l with
  | nil => rfl
  | cons x l ih =>
    rw [scan,List.find?_cons]
    cases hp : p x
    · simpa using ih
    · rfl

lemma scan_induct {step : σ → α → σ × Bool} {P : σ → Prop} {s : σ} (hs : P s)
    (hstep : ∀ s,∀ x∈l,P s → P (step s x).1) : P (scan step l s) := by
  induction l generalizing s with
  | nil => exact hs
  | cons x l ih =>
    have hx := hstep s x List.mem_cons_self hs
    rw [scan]
    split_ifs
    · exact hx
    · exact ih hx fun s y hy => hstep s y (List.mem_cons_of_mem x hy)

lemma split_cases {y : α} {a b : List α} (h : pre++post=a++y::b) :
    (∃ c,pre=a++y::c ∧ b=c++post) ∨ ∃ c,a=pre++c ∧ post=c++y::b := by
  rcases List.append_eq_append_iff.mp h with ⟨c,ha,hpost⟩ | ⟨c,hpre,hb⟩
  · exact .inr ⟨c,ha,hpost⟩
  · cases c with
    | nil => exact .inr ⟨[],by simpa using hpre.symm,hb.symm⟩
    | cons z c =>
      obtain ⟨rfl,rfl⟩ := List.cons.inj hb
      exact .inl ⟨c,hpre,rfl⟩

lemma ne_of_split (hnodup : (x::(pre++post)).Nodup) {a b : List α} {y : α}
    (hl : pre++post=a++y::b) : y≠x := by
  rintro rfl
  exact (List.nodup_cons.mp hnodup).1 (by simp [hl])

lemma notMem_of_mem (hnodup : (x::(pre++post)).Nodup) {y : α} (hpre : y∈pre) : y∉post :=
  fun hpost => (List.nodup_append.mp (List.nodup_cons.mp hnodup).2).2.2 y hpre y hpost rfl

variable [DecidableEq α]

lemma Holds.moveFirst_eq {swap before : α} (h : d.Holds (pre++x::post))
    (hhead : pre.head?=some swap) (hlast : pre.getLast?=some before) :
    ∃ prev,d.moveFirst x=some ⟨some x,(pre++post).getLast?,
        update (update d.next before post.head?) x (some swap),
        update (update prev x none) swap (some x)⟩ ∧
      ∀ y,prev y=if post.head?=some y then some before else d.prev y := by
  have hfirst : d.first=some swap := by rw [h.first,List.head?_append,hhead]; rfl
  have hx : swap≠x := by
    rintro rfl
    have hmem := List.mem_of_mem_head? hhead
    exact (List.nodup_append.mp h.nodup).2.2 swap hmem swap List.mem_cons_self rfl
  rw [moveFirst,if_neg (by simpa [hfirst] using hx),hfirst,h.prev pre x post rfl,hlast,
    h.next pre x post rfl,h.last]
  cases post with
  | nil => exact ⟨d.prev,by simp [hlast],fun y => by simp⟩
  | cons after post =>
    refine ⟨update d.prev after (some before),by simp,fun y => ?_⟩
    by_cases hy : y=after
    · simp [hy]
    · rw [update_of_ne hy,List.head?_cons,if_neg (by simpa using Ne.symm hy)]

lemma Holds.moved_next {swap before y : α} {a b : List α} (h : d.Holds (pre++x::post))
    (hhead : pre.head?=some swap) (hlast : pre.getLast?=some before)
    (hnodup : (x::(pre++post)).Nodup) (hl : x::(pre++post)=a++y::b) :
    update (update d.next before post.head?) x (some swap) y=b.head? := by
  cases a with
  | nil =>
    obtain ⟨rfl,rfl⟩ := List.cons.inj hl
    simp [List.head?_append,hhead]
  | cons z a =>
    have hsplit := (List.cons.inj hl).2
    rw [update_of_ne (ne_of_split hnodup hsplit),update_apply]
    rcases split_cases hsplit with ⟨c,hc,rfl⟩ | ⟨c,rfl,hc⟩
    · have hx := h.next a y (c++x::post) (by rw [hc]; simp)
      cases c with
      | nil =>
        have hy : y=before := by simpa [hc] using hlast
        rw [if_pos hy]
        rfl
      | cons w c =>
        have hy : y≠before := by
          rintro rfl
          have hpre := (List.nodup_append.mp (List.nodup_cons.mp hnodup).2).1
          have hin : y∈w::c := List.mem_of_getLast? (by simpa [hc] using hlast)
          rw [hc] at hpre
          exact (List.nodup_cons.mp (List.nodup_append.mp hpre).2.1).1 hin
        rw [if_neg hy,hx]
        rfl
    · have hy : y≠before := by
        rintro rfl
        exact notMem_of_mem hnodup (List.mem_of_getLast? hlast) (by simp [hc])
      rw [if_neg hy]
      exact h.next (pre++x::c) y b (by rw [hc]; simp)

lemma Holds.moved_prev {swap before y : α} {a b : List α} {prev : α → Option α}
    (h : d.Holds (pre++x::post)) (hhead : pre.head?=some swap)
    (hlast : pre.getLast?=some before) (hnodup : (x::(pre++post)).Nodup)
    (hprev : ∀ y,prev y=if post.head?=some y then some before else d.prev y)
    (hl : x::(pre++post)=a++y::b) : update (update prev x none) swap (some x) y=a.getLast? := by
  cases a with
  | nil =>
    obtain ⟨rfl,rfl⟩ := List.cons.inj hl
    have hx : x≠swap := by
      rintro rfl
      exact (List.nodup_cons.mp hnodup).1 (by simp [List.mem_of_mem_head? hhead])
    rw [update_of_ne hx,update_self]
    rfl
  | cons z a =>
    obtain ⟨rfl,hsplit⟩ := List.cons.inj hl
    rw [update_apply,update_of_ne (ne_of_split hnodup hsplit),hprev]
    rcases split_cases hsplit with ⟨c,hc,rfl⟩ | ⟨c,rfl,hc⟩
    · have hx := h.prev a y (c++x::post) (by rw [hc]; simp)
      have hafter : post.head?≠some y := fun hy =>
        notMem_of_mem hnodup (by simp [hc]) (List.mem_of_mem_head? hy)
      cases a with
      | nil =>
        have hy : y=swap := by simpa [hc] using hhead
        rw [if_pos hy]
        rfl
      | cons w a =>
        have hy : y≠swap := by
          rintro rfl
          have hw : w=y := by simpa [hc] using hhead
          subst w
          have hpre := (List.nodup_append.mp (List.nodup_cons.mp hnodup).2).1
          rw [hc] at hpre
          exact (List.nodup_cons.mp hpre).1 (by simp)
        rw [if_neg hy,if_neg hafter,hx]
        rfl
    · have hy : y≠swap := by
        rintro rfl
        exact notMem_of_mem hnodup (List.mem_of_mem_head? hhead) (by simp [hc])
      rw [if_neg hy]
      cases c with
      | nil =>
        rw [if_pos (by rw [hc]; rfl)]
        simp [List.getLast?_cons,hlast]
      | cons w c =>
        have hafter : post.head?≠some y := by
          have hpost := (List.nodup_append.mp (List.nodup_cons.mp hnodup).2).2.1
          intro hw
          have hw : w=y := by simpa [hc] using hw
          subst w
          rw [hc] at hpost
          exact (List.nodup_cons.mp hpost).1 (by simp)
        rw [if_neg hafter,h.prev (pre++x::w::c) y b (by rw [hc]; simp)]
        simp [List.getLast?_cons,List.getLast?_append]

lemma Holds.moveFirst (h : d.Holds (pre++x::post)) :
    ∃ d',d.moveFirst x=some d' ∧ d'.Holds (x::(pre++post)) := by
  cases hhead : pre.head? with
  | none =>
    obtain rfl := List.head?_eq_none_iff.mp hhead
    exact ⟨d,if_pos h.first,h⟩
  | some swap =>
    cases hlast : pre.getLast? with
    | none => simp [List.getLast?_eq_none_iff.mp hlast] at hhead
    | some before =>
      obtain ⟨prev,heq,hprev⟩ := h.moveFirst_eq hhead hlast
      have hnodup := List.perm_middle.nodup_iff.mp h.nodup
      refine ⟨_,heq,hnodup,rfl,?_,fun a y b => h.moved_next hhead hlast hnodup,
        fun a y b => h.moved_prev hhead hlast hnodup hprev⟩
      cases hend : post.getLast? <;> simp [List.getLast?_cons,List.getLast?_append,hlast,hend]

lemma Holds.moveLast (h : d.Holds (pre++x::post)) :
    ∃ d',d.mirror.moveFirst x=some d' ∧ d'.mirror.Holds (pre++post++[x]) := by
  have hm : d.mirror.Holds (post.reverse++x::pre.reverse) := by
    have := h.mirror
    simpa using this
  obtain ⟨d',heq,hd'⟩ := hm.moveFirst
  exact ⟨d',heq,by simpa using hd'.mirror⟩

end DoubleList

end Darwin.Lib
