import Darwin.Hfs.VolumeRun
import Darwin.Lib.Grants

/-! Files of a volume, which give back only blocks that are theirs. -/
namespace Darwin.Hfs.ExtendedVCB
open Lib

variable {sure : Bool} {v : ExtendedVCB}

def clear (v : ExtendedVCB) : Set ℕ := {x | v.bit x=false}

/-- The calls for files in which no bitmap read fails once bits have changed, with the blocks that
they hand out or take back; with `sure` no block fails to be freed. -/
inductive Trade (sure : Bool) (v : ExtendedVCB) : Set ℕ → Set ℕ → ExtendedVCB → Prop
  | blockAllocate (reads startingBlock bytesRequested bytesMaximum forceContiguous)
    (hv : v.ValidCall
      (.blockAllocate reads startingBlock bytesRequested bytesMaximum forceContiguous))
    (hs : ∀ k,1≤k → reads.change k=true) : Trade sure v {x | ∃ r,(v.blockAllocate reads
        startingBlock bytesRequested bytesMaximum forceContiguous).1=.ok r ∧ r.1≤x ∧ x<r.1+r.2} ∅
      (v.blockAllocate reads startingBlock bytesRequested bytesMaximum forceContiguous).2
  | blockDeallocate (read firstBlock numBlocks) (hs : ∀ k,1≤k → read k=true)
    (hfit : firstBlock+numBlocks≤v.totalBlocks)
    (hfree : sure=true → (v.blockDeallocate read firstBlock numBlocks).1=none) : Trade sure v ∅
      {x | firstBlock≤x ∧ x<firstBlock+numBlocks} (v.blockDeallocate read firstBlock numBlocks).2

lemma Trade.fair {v' : ExtendedVCB} {take give : Set ℕ} (hok : v.VolumeOK)
    (h : v.Trade sure take give v') (hgive : ∀ x∈give,x∉v.clear) :
    v'.VolumeOK ∧ take⊆v.clear ∧ v'.clear⊆v.clear \ take∪give ∧
      (sure=true → v.clear \ take∪give⊆v'.clear) := by
  cases h with
  | blockAllocate reads startingBlock bytesRequested bytesMaximum forceContiguous hv hs =>
    have hspec := hok.blockAllocate_spec reads hs hv.1 hv.2
    revert hspec
    rcases v.blockAllocate reads startingBlock bytesRequested bytesMaximum forceContiguous with
      ⟨e | ⟨start,num⟩,v'⟩ <;> intro hspec
    · cases hspec
      exact ⟨hok,by simp,by simp,by simp⟩
    · obtain ⟨hok',-,-,hclear,hbits⟩ := hspec
      refine ⟨hok',?_,fun x hx => ?_,fun _ x hx => ?_⟩
      · rintro x ⟨_,⟨⟩,hx⟩
        exact hclear x hx.1 hx.2
      · have hbit : v'.bit x=false := hx
        simpa [clear,hbits] using hbit
      · change v'.bit x=false
        simpa [clear,hbits] using hx
  | blockDeallocate read firstBlock numBlocks hs hfit hfree =>
    have hspec := hok.blockDeallocate_spec read hs hfit fun x h1 h2 =>
      Bool.eq_true_of_not_eq_false (hgive x ⟨h1,h2⟩)
    revert hspec hfree
    rcases v.blockDeallocate read firstBlock numBlocks with ⟨_ | e,v'⟩ <;> intro hfree hspec
    · have hiff : ∀ x,x∈v'.clear ↔ x∈v.clear \ ∅∪{x | firstBlock≤x ∧ x<firstBlock+numBlocks} := by
        intro x
        change v'.bit x=false ↔ _
        rw [hspec.2 x,withRun]
        split_ifs with hrun <;> simp [clear,hrun]
      exact ⟨hspec.1,by simp,fun x hx => (hiff x).mp hx,fun _ x hx => (hiff x).mpr hx⟩
    · cases hspec
      exact ⟨hok,by simp,by simp,fun h => absurd (hfree h) (Option.some_ne_none e)⟩

def market (sure : Bool) : Market ExtendedVCB ℕ :=
  ⟨clear,Trade sure,VolumeOK,sure=true,Trade.fair⟩

end Darwin.Hfs.ExtendedVCB
