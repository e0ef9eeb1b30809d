import Darwin.IOKit.RangeAllocator
import Darwin.Lib.Grants

/-! Clients of an `IORangeAllocator`, who give back only what they were given. -/
namespace Darwin.IOKit.IORangeAllocator
open Lib

variable {sure : Bool} {a : IORangeAllocator}

/-- The calls of clients in which no sum wraps, with the offsets that they hand out or take back;
with `sure` the list can be made longer whenever it has to be. -/
inductive Trade (sure : Bool) (a : IORangeAllocator) : Set ℕ → Set ℕ → IORangeAllocator → Prop
  | allocate (size alignment ioNew) (hn : a.NoWrap (.allocate size alignment ioNew)) :
    Trade sure a {x | ∃ r∈(a.allocate size alignment ioNew).1,x∈span r (a.extent size)} ∅
      (a.allocate size alignment ioNew).2
  | allocateRange (data size ioNew) (hv : a.Valid (.allocateRange data size ioNew)) :
    Trade sure a {x | (a.allocateRange data size ioNew).1=true ∧ x∈span data (a.extent size)} ∅
      (a.allocateRange data size ioNew).2
  | deallocate (data size ioNew) (hsize : size≠0) (hfit : data.toNat+a.extent size≤2^32)
    (hnew : sure=true → ioNew=true) :
    Trade sure a ∅ (span data (a.extent size)) (a.deallocate data size ioNew)

lemma Trade.fair {a' : IORangeAllocator} {take give : Set ℕ} (hw : a.WellFormed)
    (h : a.Trade sure take give a') (hgive : ∀ x∈give,x∉a.freeSet) :
    a'.WellFormed ∧ take⊆a.freeSet ∧ a'.freeSet⊆a.freeSet \ take∪give ∧
      (sure=true → a.freeSet \ take∪give⊆a'.freeSet) := by
  cases h with
  | allocate size alignment ioNew hn =>
    obtain ⟨hb,hcorrect⟩ := allocate_correct hw hn
    simp only [Correct] at hcorrect
    refine ⟨hb,?_⟩
    cases hr : (a.allocate size alignment ioNew).1 with
    | none =>
      rw [hr] at hcorrect
      simp [hcorrect]
    | some r =>
      rw [hr] at hcorrect
      simp [hcorrect]
  | allocateRange data size ioNew hv =>
    obtain ⟨hb,htrue,hfalse,-⟩ := allocateRange_correct hw hv
    refine ⟨hb,?_⟩
    cases hr : (a.allocateRange data size ioNew).1 with
    | false => simp [hfalse hr]
    | true => simp [htrue hr]
  | deallocate data size ioNew hsize hfit hnew =>
    obtain ⟨hb,hfree | ⟨hio,hfree⟩⟩ := @deallocate_correct _ _ _ hw ioNew ⟨hfit,hgive⟩ hsize
    · exact ⟨hb,by simp,by simp [hfree],fun _ => by simp [hfree]⟩
    · refine ⟨hb,by simp,by simp [hfree],fun hsure => ?_⟩
      simp [hnew hsure] at hio

def market (sure : Bool) : Market IORangeAllocator ℕ :=
  ⟨freeSet,Trade sure,WellFormed,sure=true,Trade.fair⟩

end Darwin.IOKit.IORangeAllocator
