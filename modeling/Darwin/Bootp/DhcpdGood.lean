import Darwin.Bootp.Dhcpd
import Mathlib.Tactic

/-! What holds of a server between requests, and what the searches for a binding and for an address
leave of it. -/
open List
namespace Darwin.Bootp.Dhcpd

variable {s s' s'' : Server} {t now a : ℕ} {c : Cid} {e : LeaseEntry}

def LeaseEntry.holder (e : LeaseEntry) : Option Cid := e.identifier.or e.declined

def LeaseEntry.Runs (e : LeaseEntry) (t : ℕ) : Prop :=
  e.identifier≠none ∧ (e.lease_time_expiry=infinite ∨ ¬e.lease_time_expiry<Int32.ofNat t)

def PendingHost.StillPending (p : PendingHost) (t : ℕ) : Prop := t-p.tv<DEFAULT_PENDING_SECS

/-- An address is not under a running lease, a permanent binding or a pending offer of another
client. -/
structure Allowed (s : Server) (t : ℕ) (c : Cid) (a : ℕ) : Prop where
  leases : ∀ e∈s.leases,e.ip=a → e.Runs t → e.identifier=some c
  hosts : ∀ h∈s.hosts,h.2=a → h.1=c
  pending : ∀ p∈s.pending,p.iaddr=a → p.StillPending t → p.cid=c

/-- As `Allowed`, but no other client holds an entry for the address, running or not. -/
structure Clear (s : Server) (t : ℕ) (c : Cid) (a : ℕ) : Prop where
  leases : ∀ e∈s.leases,e.ip=a → e.holder=some c
  hosts : ∀ h∈s.hosts,h.2=a → h.1=c
  pending : ∀ p∈s.pending,p.iaddr=a → p.StillPending t → p.cid=c

/-- What holds between requests: each pending offer is clear. -/
structure Good (s : Server) (now : ℕ) : Prop where
  ips : (s.leases.map LeaseEntry.ip).Nodup
  unbound : ∀ e∈s.leases,s.NICache_ip_in_use e.ip=false
  hosts : ∀ h∈s.hosts,∀ h'∈s.hosts,h.2=h'.2 → h.1=h'.1
  order : s.pending.Pairwise fun p q => q.tv≤p.tv
  times : ∀ p∈s.pending,p.tv≤now
  offers : ∀ p∈s.pending,p.StillPending now → Clear s now p.cid p.iaddr

/-- What a search leaves: it removes entries of the client itself, and offers that are the client's
own or not pending any more. -/
structure Kept (t : ℕ) (c : Cid) (s s' : Server) : Prop where
  hosts : s'.hosts=s.hosts
  leases : ∃ l,s.leases.Perm (l++s'.leases) ∧ ∀ e∈l,e.holder=some c
  pending : s'.pending.Sublist s.pending
  fresh : ∀ p∈s.pending,p.StillPending t → p∈s'.pending ∨ p.cid=c

lemma Clear.allowed (h : Clear s t c a) : Allowed s t c a := by
  refine ⟨fun e he heq hruns => ?_,h.hosts,h.pending⟩
  have hholder := h.leases e he heq
  rw [LeaseEntry.holder] at hholder
  cases hid : e.identifier with
  | none => exact absurd hid hruns.1
  | some c' =>
    rw [hid] at hholder
    exact hholder

lemma Kept.refl (t : ℕ) (c : Cid) (s : Server) : Kept t c s s :=
  ⟨rfl,⟨[],List.Perm.refl _,fun _ h => absurd h not_mem_nil⟩,List.Sublist.refl _,
    fun _ h _ => .inl h⟩

lemma Kept.trans (h : Kept t c s s') (h' : Kept t c s' s'') : Kept t c s s'' := by
  obtain ⟨l,hl,hown⟩ := h.leases
  obtain ⟨l',hl',hown'⟩ := h'.leases
  refine ⟨h'.hosts.trans h.hosts,⟨l++l',?_,fun e he => ?_⟩,h'.pending.trans h.pending,
    fun p hp hfresh => ?_⟩
  · rw [append_assoc]
    exact hl.trans (hl'.append_left l)
  · rcases mem_append.mp he with he | he
    · exact hown e he
    · exact hown' e he
  · rcases h.fresh p hp hfresh with hp' | heq
    · exact h'.fresh p hp' hfresh
    · exact .inr heq

lemma Good.less (h : Good s now) (hhosts : s'.hosts=s.hosts)
    (hleases : s'.leases.Subperm s.leases) (hpending : s'.pending.Sublist s.pending) :
    Good s' now := by
  have hin : ∀ ip,s'.NICache_ip_in_use ip=s.NICache_ip_in_use ip := fun ip => by
    rw [Server.NICache_ip_in_use,Server.NICache_ip_in_use,hhosts]
  refine ⟨?_,fun e he => ?_,?_,h.order.sublist hpending,fun p hp => h.times p (hpending.subset hp),
    fun p hp hfresh => ?_⟩
  · obtain ⟨l,hl,hsub⟩ := hleases
    exact (hl.map LeaseEntry.ip).nodup_iff.mp (h.ips.sublist (hsub.map LeaseEntry.ip))
  · rw [hin]
    exact h.unbound e (hleases.subset he)
  · rw [hhosts]
    exact h.hosts
  · have hclear := h.offers p (hpending.subset hp) hfresh
    refine ⟨fun e he => hclear.leases e (hleases.subset he),?_,
      fun q hq => hclear.pending q (hpending.subset hq)⟩
    rw [hhosts]
    exact hclear.hosts

lemma Good.kept (h : Good s now) (hk : Kept t c s s') : Good s' now := by
  obtain ⟨l,hl,-⟩ := hk.leases
  exact h.less hk.hosts
    ((sublist_append_right l s'.leases).subperm.trans hl.symm.subperm) hk.pending

lemma PendingHost.StillPending.earlier {p : PendingHost} (h : p.StillPending t) (hle : now≤t) :
    p.StillPending now := by
  rw [PendingHost.StillPending] at h ⊢
  omega

lemma Good.later (h : Good s now) (hle : now≤t) : Good s t := by
  refine ⟨h.ips,h.unbound,h.hosts,h.order,fun p hp => le_trans (h.times p hp) hle,
    fun p hp hfresh => ?_⟩
  have hclear := h.offers p hp (hfresh.earlier hle)
  exact ⟨hclear.leases,hclear.hosts,fun q hq heq hq' => hclear.pending q hq heq (hq'.earlier hle)⟩

lemma not_ip_in_use : s.NICache_ip_in_use a=false ↔ ∀ h∈s.hosts,h.2≠a := by
  rw [Server.NICache_ip_in_use,any_eq_false]
  simp

lemma Good.clear_entry (h : Good s t) (he : e∈s.leases) (hholder : e.holder=some c) :
    Clear s t c e.ip := by
  refine ⟨fun e' he' heq => ?_,fun x hx heq => ?_,fun p hp heq hfresh => ?_⟩
  · rw [inj_on_of_nodup_map h.ips he' he heq]
    exact hholder
  · exact absurd heq (not_ip_in_use.mp (h.unbound e he) x hx)
  · have heq' := (h.offers p hp hfresh).leases e he heq.symm
    rw [hholder] at heq'
    exact (Option.some.inj heq').symm

lemma Good.clear_host (h : Good s t) (hmem : (c,a)∈s.hosts) : Clear s t c a := by
  refine ⟨fun e he heq => ?_,fun x hx heq => h.hosts x hx (c,a) hmem heq,
    fun p hp heq hfresh => ?_⟩
  · exact absurd heq.symm (not_ip_in_use.mp (h.unbound e he) (c,a) hmem)
  · exact ((h.offers p hp hfresh).hosts (c,a) hmem heq.symm).symm

lemma Good.offer (h : Good s t) (hclear : Clear s t c a) (lease : Int32) :
    Good {s with pending := ⟨c,a,t,lease⟩::s.pending} t := by
  have hpending : ∀ q∈(⟨c,a,t,lease⟩ : PendingHost)::s.pending,q.iaddr=a →
      q.StillPending t → q.cid=c := by
    intro q hq heq hfresh
    rcases mem_cons.mp hq with rfl | hq
    · rfl
    · exact hclear.pending q hq heq hfresh
  refine ⟨h.ips,h.unbound,h.hosts,pairwise_cons.mpr ⟨h.times,h.order⟩,fun p hp => ?_,
    fun p hp hfresh => ?_⟩
  · rcases mem_cons.mp hp with rfl | hp
    · exact le_refl _
    · exact h.times p hp
  · rcases mem_cons.mp hp with rfl | hp
    · exact ⟨hclear.leases,hclear.hosts,hpending⟩
    · have hold := h.offers p hp hfresh
      refine ⟨hold.leases,hold.hosts,fun q hq heq hq' => ?_⟩
      rcases mem_cons.mp hq with rfl | hq
      · exact (hclear.pending p hp heq.symm hfresh).symm
      · exact hold.pending q hq heq hq'

lemma Good.create (h : Good s t) (hclear : Clear s t c a) (hfree : ∀ e∈s.leases,e.ip≠a)
    (hbound : s.NICache_ip_in_use a=false) (expiry : Int32) :
    Good (s.S_create_host c a expiry) t := by
  refine ⟨nodup_cons.mpr ⟨?_,h.ips⟩,fun e he => ?_,h.hosts,h.order,h.times,
    fun p hp hfresh => ?_⟩
  · rw [mem_map]
    rintro ⟨e,he,heq⟩
    exact hfree e he heq
  · rcases mem_cons.mp he with rfl | he
    · exact hbound
    · exact h.unbound e he
  · have hold := h.offers p hp hfresh
    refine ⟨fun e he heq => ?_,hold.hosts,hold.pending⟩
    rcases mem_cons.mp he with rfl | he
    · exact congrArg some (hclear.pending p hp heq.symm hfresh).symm
    · exact hold.leases e he heq

lemma Good.setHead (h : Good s t) {rest : List LeaseEntry} (hs : s.leases=e::rest)
    {e' : LeaseEntry} (hip : e'.ip=e.ip) (hholder : e'.holder=e.holder) :
    Good (s.setHead e') t := by
  have hleases : (s.setHead e').leases=e'::rest := by rw [Server.setHead,hs,tail_cons]
  have hback : ∀ x∈(s.setHead e').leases,∃ y∈s.leases,x.ip=y.ip ∧ x.holder=y.holder := by
    intro x hx
    rw [hleases] at hx
    rcases mem_cons.mp hx with rfl | hx
    · exact ⟨e,hs▸mem_cons_self,hip,hholder⟩
    · exact ⟨x,hs▸mem_cons_of_mem _ hx,rfl,rfl⟩
  refine ⟨?_,fun x hx => ?_,h.hosts,h.order,h.times,fun p hp hfresh => ?_⟩
  · have hips := h.ips
    rw [hs,map_cons] at hips
    rw [hleases,map_cons,hip]
    exact hips
  · obtain ⟨y,hy,heq,-⟩ := hback x hx
    rw [heq]
    exact h.unbound y hy
  · have hold := h.offers p hp hfresh
    refine ⟨fun x hx heq => ?_,hold.hosts,hold.pending⟩
    obtain ⟨y,hy,hip',hholder'⟩ := hback x hx
    rw [hholder']
    exact hold.leases y hy (hip'.symm.trans heq)

lemma find?_perm {α : Type} {p : α → Bool} {l : List α} {x : α} (h : l.find? p=some x) :
    l.Perm (x::l.eraseP p) := by
  induction l with
  | nil => cases h
  | cons y l ih =>
    cases hy : p y with
    | true =>
      rw [find?_cons_of_pos hy] at h
      cases h
      rw [eraseP_cons_of_pos hy]
    | false =>
      rw [find?_cons_of_neg (by simp [hy])] at h
      rw [eraseP_cons_of_neg (by simp [hy])]
      exact ((ih h).cons y).trans (List.Perm.swap _ _ _)

lemma lookup_spec {p : LeaseEntry → Bool} {r : LeaseEntry × Server} (h : s.lookup p=some r)
    (t : ℕ) (c : Cid) :
    Kept t c s r.2 ∧ p r.1=true ∧ r.1∈s.leases ∧ ∃ rest,r.2.leases=r.1::rest := by
  obtain ⟨e,he,rfl⟩ := Option.map_eq_some_iff.mp h
  exact ⟨⟨rfl,⟨[],find?_perm he,fun _ h => absurd h not_mem_nil⟩,List.Sublist.refl _,
    fun _ h _ => .inl h⟩,find?_some he,mem_of_find?_eq_some he,_,rfl⟩

lemma lookup_none {p : LeaseEntry → Bool} (h : s.lookup p=none) : ∀ e∈s.leases,p e=false := by
  intro e he
  have hnone := find?_eq_none.mp (Option.map_eq_none_iff.mp h) e he
  exact Bool.eq_false_iff.mpr hnone

lemma not_pending_of_first {l : List PendingHost} {hp : PendingHost}
    (hl : l.Pairwise fun p q => q.tv≤p.tv) (hfind : l.find? (fun p => p.iaddr == a)=some hp)
    (hold : ¬hp.StillPending t) : ∀ p∈l,p.iaddr=a → ¬p.StillPending t := by
  induction l with
  | nil => cases hfind
  | cons q l ih =>
    obtain ⟨hq,hl⟩ := pairwise_cons.mp hl
    intro p hp' heq hfresh
    by_cases hqa : q.iaddr=a
    · rw [find?_cons_of_pos (by simp [hqa])] at hfind
      cases hfind
      rcases mem_cons.mp hp' with rfl | hp'
      · exact hold hfresh
      · have hle := hq p hp'
        rw [PendingHost.StillPending] at hold hfresh
        omega
    · rw [find?_cons_of_neg (by simp [hqa])] at hfind
      rcases mem_cons.mp hp' with rfl | hp'
      · exact hqa heq
      · exact ih hl hfind p hp' heq hfresh

/-- What a search for an address leaves. -/
structure Searched (t : ℕ) (s s' : Server) : Prop where
  hosts : s'.hosts=s.hosts
  leases : s.leases.Perm s'.leases
  pending : s'.pending.Sublist s.pending
  fresh : ∀ p∈s.pending,p.StillPending t → p∈s'.pending

lemma Searched.refl (t : ℕ) (s : Server) : Searched t s s :=
  ⟨rfl,List.Perm.refl _,List.Sublist.refl _,fun _ h _ => h⟩

lemma Searched.trans (h : Searched t s s') (h' : Searched t s' s'') : Searched t s s'' :=
  ⟨h'.hosts.trans h.hosts,h.leases.trans h'.leases,h'.pending.trans h.pending,
    fun p hp hfresh => h'.fresh p (h.fresh p hp hfresh) hfresh⟩

lemma Searched.kept (h : Searched t s s') (c : Cid) : Kept t c s s' :=
  ⟨h.hosts,⟨[],h.leases,fun _ h => absurd h not_mem_nil⟩,h.pending,
    fun p hp hfresh => .inl (h.fresh p hp hfresh)⟩

/-- An address that nobody has. -/
structure Free (s : Server) (t a : ℕ) : Prop where
  leases : ∀ e∈s.leases,e.ip≠a
  hosts : s.NICache_ip_in_use a=false
  pending : ∀ p∈s.pending,p.iaddr=a → ¬p.StillPending t

lemma Free.clear (h : Free s t a) (c : Cid) : Clear s t c a :=
  ⟨fun e he heq => absurd heq (h.leases e he),
    fun x hx heq => absurd heq (not_ip_in_use.mp h.hosts x hx),
    fun p hp heq hfresh => absurd hfresh (h.pending p hp heq)⟩

lemma S_ipinuse_spec (hs : Good s now) (t a : ℕ) : Searched t s (s.S_ipinuse t a).2 ∧
      ((s.S_ipinuse t a).1=false → Free (s.S_ipinuse t a).2 t a) := by
  rw [Server.S_ipinuse]
  split_ifs with hin
  · exact ⟨Searched.refl t s,fun h => (by cases h)⟩
  · cases hlook : s.PLCache_lookup_ip a with
    | some r =>
      obtain ⟨e,he,rfl⟩ := Option.map_eq_some_iff.mp hlook
      exact ⟨⟨rfl,find?_perm he,List.Sublist.refl _,fun _ h _ => h⟩,fun h => (by cases h)⟩
    | none =>
      have hfree : ∀ e∈s.leases,e.ip≠a := fun e he heq => by
        have hfalse := lookup_none hlook e he
        rw [heq,beq_self_eq_true] at hfalse
        cases hfalse
      have hbound : s.NICache_ip_in_use a=false := Bool.eq_false_iff.mpr hin
      cases hfind : s.pending.find? (fun hp => hp.iaddr == a) with
      | none =>
        refine ⟨Searched.refl t s,fun _ => ⟨hfree,hbound,fun p hp heq => ?_⟩⟩
        have hne := find?_eq_none.mp hfind p hp
        exact absurd (beq_iff_eq.mpr heq) hne
      | some hp =>
        dsimp only
        split_ifs with hfresh
        · exact ⟨Searched.refl t s,fun h => (by cases h)⟩
        · have hold := not_pending_of_first hs.order hfind hfresh
          refine ⟨⟨rfl,List.Perm.refl _,eraseP_sublist,fun p hp' hp => ?_⟩,
            fun _ => ⟨hfree,hbound,fun p hp' => hold p (eraseP_sublist.subset hp')⟩⟩
          have hne : ¬(p.iaddr == a)=true := fun heq => hold p hp' (beq_iff_eq.mp heq) hp
          exact (mem_eraseP_of_neg (a := p) hne).mpr hp'

lemma acquireLoop_spec (hs : Good s now) (t i n : ℕ) : Searched t s (s.acquireLoop t i n).2 ∧
      ∀ ip,(s.acquireLoop t i n).1=some ip → Free (s.acquireLoop t i n).2 t ip := by
  induction n generalizing s i with
  | zero => exact ⟨Searched.refl t s,fun ip h => (by cases h)⟩
  | succ n ih =>
    obtain ⟨hsearched,hfree⟩ := S_ipinuse_spec hs t i
    rw [Server.acquireLoop]
    cases hin : (s.S_ipinuse t i).1 with
    | true =>
      obtain ⟨hrest,hip⟩ := ih (hs.kept (hsearched.kept (0,[]))) (i+1)
      exact ⟨hsearched.trans hrest,hip⟩
    | false =>
      refine ⟨hsearched,fun ip heq => ?_⟩
      cases heq
      exact hfree hin

lemma acquireIp_spec (hs : Good s now) (t k : ℕ) (e : SubnetEntry) :
    Searched t s (s.acquireIp t k e).2 ∧
      ∀ ip,(s.acquireIp t k e).1=some ip → Free (s.acquireIp t k e).2 t ip := by
  rw [Server.acquireIp]
  cases hd : e.dhcp with
  | false => exact ⟨Searched.refl t s,fun ip h => (by cases h)⟩
  | true =>
    obtain ⟨hsearched,hfree⟩ := acquireLoop_spec hs t
      (if e.nextip=e.last+1 then e.first else e.nextip)
      (e.last+1-(if e.nextip=e.last+1 then e.first else e.nextip))
    exact ⟨⟨hsearched.hosts,hsearched.leases,hsearched.pending,hsearched.fresh⟩,
      fun ip heq => ⟨(hfree ip heq).leases,(hfree ip heq).hosts,(hfree ip heq).pending⟩⟩

lemma acquireFrom_spec (hs : Good s now) (t addr k : ℕ) (entry : SubnetEntry) (is : List ℕ) :
    Searched t s (s.acquireFrom t addr k entry is).2 ∧
      ∀ x,(s.acquireFrom t addr k entry is).1=some x →
        Free (s.acquireFrom t addr k entry is).2 t x.1 := by
  induction is generalizing s with
  | nil => exact ⟨Searched.refl t s,fun x h => (by cases h)⟩
  | cons i is ih =>
    rw [Server.acquireFrom]
    cases hget : s.subnets[i]? with
    | none => exact ⟨Searched.refl t s,fun x h => (by cases h)⟩
    | some e =>
      dsimp only
      split_ifs
      · obtain ⟨hsearched,hfree⟩ := acquireIp_spec hs t i e
        cases hip : (s.acquireIp t i e).1 with
        | some ip =>
          refine ⟨hsearched,fun x heq => ?_⟩
          cases heq
          exact hfree ip hip
        | none =>
          obtain ⟨hrest,hx⟩ := ih (hs.kept (hsearched.kept (0,[])))
          exact ⟨hsearched.trans hrest,hx⟩
      · exact ih hs

lemma acquire_spec (hs : Good s now) (t addr : ℕ) : Searched t s (s.acquireIpSupernet t addr).2 ∧
      ∀ x,(s.acquireIpSupernet t addr).1=some x → Free (s.acquireIpSupernet t addr).2 t x.1 := by
  rw [Server.acquireIpSupernet]
  split
  · exact acquireFrom_spec hs _ _ _ _ _
  · exact ⟨Searched.refl t s,fun x h => (by cases h)⟩

lemma reclaim_spec {if_p : Interface} {giaddr : ℕ} {x : LeaseEntry × Server}
    (h : s.DHCPLeases_reclaim t if_p giaddr=some x) :
    s.leases.Perm (x.1::x.2.leases) ∧ x.2.hosts=s.hosts ∧ x.2.pending=s.pending ∧
      ∃ expiry,x.1.lease=some expiry ∧ expiry<Int32.ofNat t := by
  obtain ⟨e,he,rfl⟩ := Option.map_eq_some_iff.mp h
  refine ⟨?_,rfl,rfl,?_⟩
  · exact (reverse_perm _).symm.trans
      ((find?_perm he).trans ((reverse_perm _).symm.cons e))
  · have hp := find?_some he
    rw [Server.reclaimable] at hp
    cases hlease : e.lease with
    | none =>
      rw [hlease] at hp
      cases hp
    | some expiry =>
      rw [hlease] at hp
      exact ⟨expiry,rfl,of_decide_eq_true (Bool.and_eq_true_iff.mp hp).1⟩

end Darwin.Bootp.Dhcpd
