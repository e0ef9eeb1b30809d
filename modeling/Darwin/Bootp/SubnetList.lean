import Mathlib.Algebra.Ring.Nat
import Mathlib.Data.List.Forall2
import Mathlib.Data.List.Pairwise

/-! The list of subnets of `bootplib/subnetDescr.m`. Addresses are 32-bit numbers in host order. -/
open List
namespace Darwin.Bootp.SubnetList

section Source

/-- `ip_range_t`, from `S_nltoiprange`: `inet_addr` gives -1 for text that is no address, and for
the last address, so that an entry with this one is refused. -/
structure IpRange where
  start : ℕ
  last : ℕ
  start_le : start≤last
  last_lt : last<2^32-1
  deriving DecidableEq

/-- `subnetEntry`. Without a list of client types any type is included. -/
structure SubnetEntry where
  net_address : ℕ
  net_mask : ℕ
  ip_range : IpRange
  supernet : Option String
  types : Option (List String)
  nextip : ℕ
  deriving DecidableEq

namespace SubnetEntry

variable (e : SubnetEntry)

def ipSameSubnet (addr : ℕ) : Bool := addr&&&e.net_mask == e.net_address

def ipWithinIpRange (ip : ℕ) : Bool :=
  e.ipSameSubnet ip && decide (e.ip_range.start ≤ ip) && decide (ip≤e.ip_range.last)

def sameSupernet (e' : SubnetEntry) : Bool :=
  match e.supernet,e'.supernet with
  | some a,some b => a == b
  | _,_ => false

def includesType (type : String) : Bool := e.types.all (·.contains type)

/-- The loop from `i` on, over the addresses that are left. -/
def scan (func : ℕ → Bool) : ℕ → ℕ → Option ℕ
  | 0,_ => none
  | n+1,i => if func i=false then some i else scan func n (i+1)

/-- Where the next search begins; `end + 1` stands for a range in which nothing was found. -/
def resume : ℕ := if e.nextip=e.ip_range.last+1 then e.ip_range.start else e.nextip

def acquireIp (type : String) (func : ℕ → Bool) : Option ℕ × SubnetEntry :=
  if e.includesType type=false then (none,e)
  else
    let found := scan func (e.ip_range.last+1-e.resume) e.resume
    (found,{e with nextip := found.getD (e.ip_range.last+1)})

end SubnetEntry

/-- The order of two ranges, and whether they overlap. -/
def ipRangeCmp (a b : IpRange) : Ordering × Bool :=
  if a.start=b.start then (.eq,true)
  else if a.start<b.start then (.lt,decide (b.start≤a.last))
  else (.gt,decide (a.start≤b.last))

def addSubnet (subnet : SubnetEntry) : List SubnetEntry → Option (List SubnetEntry)
  | [] => some [subnet]
  | obj::list =>
    let c := ipRangeCmp subnet.ip_range obj.ip_range
    if c.2 then none
    else if c.1=.lt then some (subnet::obj::list)
    else (addSubnet subnet list).map fun list => obj::list

/-- The loop over the entries, and the one that the address is from. -/
def acquireFrom (p : SubnetEntry → Bool) (type : String) (func : ℕ → Bool) :
    List SubnetEntry → Option (ℕ × SubnetEntry) × List SubnetEntry
  | [] => (none,[])
  | e::list =>
    let r := e.acquireIp type func
    if p e then
      match r.1 with
      | some ip => (some (ip,r.2),r.2::list)
      | none =>
        let rest := acquireFrom p type func list
        (rest.1,r.2::rest.2)
    else
      let rest := acquireFrom p type func list
      (rest.1,e::rest.2)

def acquireIp (list : List SubnetEntry) (addr : ℕ) (type : String) (func : ℕ → Bool) :
    Option (ℕ × SubnetEntry) × List SubnetEntry :=
  acquireFrom (fun e => e.ipSameSubnet addr) type func list

/-- The entry found for the address is on its subnet itself. -/
def acquireIpSupernet (list : List SubnetEntry) (addr : ℕ) (type : String) (func : ℕ → Bool) :
    Option (ℕ × SubnetEntry) × List SubnetEntry :=
  match list.find? fun e => e.ipSameSubnet addr with
  | none => (none,list)
  | some entry => acquireFrom (fun e => e.ipSameSubnet addr || e.sameSupernet entry) type func list

end Source

section Runs

variable {l l' : List SubnetEntry}

/-- Lists that `addSubnet` and allocations lead to. An entry is added as `initVariables` leaves it. -/
inductive Reached : List SubnetEntry → Prop
  | init : Reached []
  | addSubnet {l l' : List SubnetEntry} (e : SubnetEntry) (h : Reached l) (hnext : e.nextip=e.ip_range.start)
    (hadd : addSubnet e l=some l') : Reached l'
  | acquireIp {l : List SubnetEntry} (addr : ℕ) (type : String) (func : ℕ → Bool) (h : Reached l) :
    Reached (acquireIp l addr type func).2
  | acquireIpSupernet {l : List SubnetEntry} (addr : ℕ) (type : String) (func : ℕ → Bool) (h : Reached l) :
    Reached (acquireIpSupernet l addr type func).2

/-- The entry is on the subnet of the address or on the supernet of the entry found for it. -/
def Eligible (l : List SubnetEntry) (addr : ℕ) (type : String) (e : SubnetEntry) : Prop :=
  e∈l ∧ e.includesType type ∧ ∃ entry,l.find? (fun e => e.ipSameSubnet addr)=some entry ∧
    (e.ipSameSubnet addr ∨ e.sameSupernet entry)

/-- An unused address of an eligible entry is returned if there is one. -/
def Serves (l : List SubnetEntry) (addr : ℕ) (type : String) (func : ℕ → Bool) : Prop :=
  (∃ e ip,Eligible l addr type e ∧ e.ip_range.start ≤ ip ∧ ip≤e.ip_range.last ∧ func ip=false) →
  ∃ e ip e',(acquireIpSupernet l addr type func).1=some (ip,e') ∧ Eligible l addr type e ∧
    e'={e with nextip := ip} ∧ e.ip_range.start ≤ ip ∧ ip≤e.ip_range.last ∧ func ip=false

/-- If an eligible entry has an unused address, one has such an address from its resume point on. -/
def Ahead (l : List SubnetEntry) (addr : ℕ) (type : String) (func : ℕ → Bool) : Prop :=
  (∃ e ip,Eligible l addr type e ∧ e.ip_range.start ≤ ip ∧ ip≤e.ip_range.last ∧ func ip=false) →
  ∃ e ip,Eligible l addr type e ∧ e.resume ≤ ip ∧ ip≤e.ip_range.last ∧ func ip=false

/-- The ranges ascend without overlap, and the resume points are in them or just behind. -/
structure Ordered (l : List SubnetEntry) : Prop where
  sorted : l.Pairwise fun a b => a.ip_range.last<b.ip_range.start
  next : ∀ e∈l,e.ip_range.start≤e.nextip ∧ e.nextip≤e.ip_range.last+1

lemma ipRangeCmp_cases {a b : IpRange} (h : (ipRangeCmp a b).2=false) :
    (ipRangeCmp a b).1=.lt ∧ a.last<b.start ∨ (ipRangeCmp a b).1=.gt ∧ b.last<a.start := by
  rw [ipRangeCmp] at h ⊢
  split_ifs at h ⊢ with heq hlt
  · exact .inl ⟨rfl,by simpa using h⟩
  · exact .inr ⟨rfl,by simpa using h⟩

lemma addSubnet_spec {e : SubnetEntry} (hsorted : l.Pairwise fun a b => a.ip_range.last<b.ip_range.start)
    (hadd : addSubnet e l=some l') : (∀ x∈l',x=e ∨ x∈l) ∧
      l'.Pairwise fun a b => a.ip_range.last<b.ip_range.start := by
  induction l generalizing l' with
  | nil =>
    cases hadd
    simp
  | cons obj list ih =>
    obtain ⟨hobj,hlist⟩ := pairwise_cons.mp hsorted
    rw [addSubnet] at hadd
    by_cases hoverlap : (ipRangeCmp e.ip_range obj.ip_range).2
    · simp [hoverlap] at hadd
    rw [if_neg hoverlap] at hadd
    rcases ipRangeCmp_cases (Bool.eq_false_iff.mpr hoverlap) with ⟨hc,hlt⟩ | ⟨hc,hlt⟩
    · rw [if_pos hc] at hadd
      cases hadd
      refine ⟨by simp,pairwise_cons.mpr ⟨?_,hsorted⟩⟩
      intro x hx
      rcases mem_cons.mp hx with rfl | hx
      · exact hlt
      · have hle := obj.ip_range.start_le
        have hnext := hobj x hx
        omega
    · obtain ⟨list',hlist',rfl⟩ : ∃ list',addSubnet e list=some list' ∧ obj::list'=l' := by
        simpa [hc] using hadd
      obtain ⟨hmem,hsorted'⟩ := ih hlist hlist'
      refine ⟨?_,pairwise_cons.mpr ⟨?_,hsorted'⟩⟩
      · intro x hx
        rcases mem_cons.mp hx with rfl | hx
        · exact .inr mem_cons_self
        · exact (hmem x hx).imp_right (mem_cons_of_mem _)
      · intro x hx
        rcases hmem x hx with rfl | hx
        · exact hlt
        · exact hobj x hx

lemma scan_spec (func : ℕ → Bool) (n i : ℕ) :
    (∀ ip,SubnetEntry.scan func n i=some ip → i ≤ ip ∧ ip < i+n ∧ func ip=false) ∧
      (SubnetEntry.scan func n i=none → ∀ ip,i ≤ ip → ip < i+n → func ip=true) := by
  induction n generalizing i with
  | zero => exact ⟨fun ip h => (by cases h),fun _ ip h₁ h₂ => (by omega)⟩
  | succ n ih =>
    rw [SubnetEntry.scan]
    by_cases hfree : func i=false
    · rw [if_pos hfree]
      refine ⟨fun ip h => ?_,fun h => by cases h⟩
      cases h
      exact ⟨Nat.le_refl _,by omega,hfree⟩
    · rw [if_neg hfree]
      refine ⟨fun ip h => ?_,fun h ip h₁ h₂ => ?_⟩
      · obtain ⟨h₁,h₂,h₃⟩ := (ih (i+1)).1 ip h
        exact ⟨by omega,by omega,h₃⟩
      · rcases Nat.eq_or_lt_of_le h₁ with rfl | h₁
        · simpa using hfree
        · exact (ih (i+1)).2 h ip h₁ (by omega)

/-- An address that a search of the entry can find. -/
def Found (e : SubnetEntry) (func : ℕ → Bool) (ip : ℕ) : Prop :=
  e.resume ≤ ip ∧ ip≤e.ip_range.last ∧ func ip=false

/-- What a call may leave of an entry. -/
def Moved (e e' : SubnetEntry) : Prop :=
  ∃ n,e.ip_range.start≤n ∧ n≤e.ip_range.last+1 ∧ e'={e with nextip := n}

lemma resume_bounds {e : SubnetEntry} (h : e.ip_range.start≤e.nextip ∧ e.nextip≤e.ip_range.last+1) :
    e.ip_range.start≤e.resume ∧ e.resume≤e.ip_range.last := by
  have hle := e.ip_range.start_le
  rw [SubnetEntry.resume]
  split_ifs <;> omega

lemma acquireIp_spec {e : SubnetEntry} (type : String) (func : ℕ → Bool)
    (he : e.ip_range.start≤e.nextip ∧ e.nextip≤e.ip_range.last+1) :
    (∀ ip,(e.acquireIp type func).1=some ip → e.includesType type ∧ Found e func ip ∧
      (e.acquireIp type func).2={e with nextip := ip}) ∧
    ((e.acquireIp type func).1=none → e.includesType type → ∀ ip,¬Found e func ip) ∧
    Moved e (e.acquireIp type func).2 := by
  have hbounds := resume_bounds he
  have hscan := scan_spec func (e.ip_range.last+1-e.resume) e.resume
  rw [SubnetEntry.acquireIp]
  by_cases htype : e.includesType type=false
  · rw [if_pos htype]
    exact ⟨fun ip h => (by cases h),fun _ h => (by simp [htype] at h),e.nextip,he.1,he.2,rfl⟩
  rw [if_neg htype]
  dsimp only
  cases hfound : SubnetEntry.scan func (e.ip_range.last+1-e.resume) e.resume with
  | none =>
    refine ⟨fun ip h => (by cases h),fun _ _ ip hip => ?_,e.ip_range.last+1,by omega,Nat.le_refl _,rfl⟩
    have hused := hscan.2 hfound ip hip.1 (by have hle := hip.2.1; omega)
    rw [hip.2.2] at hused
    cases hused
  | some ip =>
    obtain ⟨hge,hlt,hfree⟩ := hscan.1 ip hfound
    refine ⟨fun ip' h => ?_,fun h => (by cases h),ip,by omega,by omega,rfl⟩
    cases h
    exact ⟨by simpa using htype,⟨hge,by omega,hfree⟩,rfl⟩

lemma acquireFrom_spec (p : SubnetEntry → Bool) (type : String) (func : ℕ → Bool) (h : Ordered l) :
    Forall₂ Moved l (acquireFrom p type func l).2 ∧
    (∀ ip e',(acquireFrom p type func l).1=some (ip,e') → ∃ e∈l,p e ∧ e.includesType type ∧
      Found e func ip ∧ e'={e with nextip := ip}) ∧
    ((acquireFrom p type func l).1=none → ∀ e∈l,p e → e.includesType type → ∀ ip,¬Found e func ip) := by
  have hnext := h.next
  clear h
  induction l with
  | nil => exact ⟨.nil,fun ip e' h => (by cases h),fun _ => (by simp)⟩
  | cons e l ih =>
    obtain ⟨hmoved,hsome,hnone⟩ := ih fun e he => hnext e (mem_cons_of_mem _ he)
    have hself : Forall₂ Moved l l := forall₂_same.mpr fun e he =>
      ⟨e.nextip,(hnext e (mem_cons_of_mem _ he)).1,(hnext e (mem_cons_of_mem _ he)).2,rfl⟩
    have he := hnext e mem_cons_self
    obtain ⟨hfound,hused,hstep⟩ := acquireIp_spec type func he
    have hrest : ∀ ip e',(acquireFrom p type func l).1=some (ip,e') → ∃ e₁∈e::l,p e₁ ∧
        e₁.includesType type ∧ Found e₁ func ip ∧ e'={e₁ with nextip := ip} := fun ip e' h => by
      obtain ⟨e₁,hmem,h₁⟩ := hsome ip e' h
      exact ⟨e₁,mem_cons_of_mem _ hmem,h₁⟩
    rw [acquireFrom]
    by_cases hp : p e
    swap
    · simp only [if_neg hp]
      refine ⟨.cons ⟨e.nextip,he.1,he.2,rfl⟩ hmoved,hrest,fun h e₁ he₁ hp₁ => ?_⟩
      rcases mem_cons.mp he₁ with rfl | he₁
      · exact absurd hp₁ hp
      · exact hnone h e₁ he₁ hp₁
    simp only [if_pos hp]
    cases hip : (e.acquireIp type func).1 with
    | some ip =>
      obtain ⟨htype,hfree,heq⟩ := hfound ip hip
      refine ⟨.cons hstep hself,fun ip' e' h => ?_,fun h => (by cases h)⟩
      cases h
      exact ⟨e,mem_cons_self,hp,htype,hfree,heq⟩
    | none =>
      refine ⟨.cons hstep hmoved,hrest,fun h e₁ he₁ hp₁ => ?_⟩
      rcases mem_cons.mp he₁ with rfl | he₁
      · exact hused hip
      · exact hnone h e₁ he₁ hp₁

lemma Ordered.moved (h : Ordered l) (hl : Forall₂ Moved l l') : Ordered l' := by
  have hranges : l'.map SubnetEntry.ip_range=l.map SubnetEntry.ip_range := by
    clear h
    induction hl with
    | nil => rfl
    | cons he hl ih =>
      obtain ⟨n,-,-,rfl⟩ := he
      rw [map_cons,map_cons,ih]
  have hnext : ∀ e∈l',e.ip_range.start≤e.nextip ∧ e.nextip≤e.ip_range.last+1 := by
    clear h hranges
    induction hl with
    | nil => simp
    | cons he hl ih =>
      obtain ⟨n,hge,hle,rfl⟩ := he
      simpa using ⟨⟨hge,hle⟩,ih⟩
  have hsorted : (l.map SubnetEntry.ip_range).Pairwise fun a b => a.last<b.start :=
    pairwise_map.mpr h.sorted
  rw [←hranges] at hsorted
  exact ⟨pairwise_map.mp hsorted,hnext⟩

lemma Reached.ordered (h : Reached l) : Ordered l := by
  induction h with
  | init => exact ⟨.nil,by simp⟩
  | addSubnet e h hnext hadd ih =>
    obtain ⟨hmem,hsorted⟩ := addSubnet_spec ih.sorted hadd
    refine ⟨hsorted,fun x hx => ?_⟩
    rcases hmem x hx with rfl | hx
    · have hle := x.ip_range.start_le
      omega
    · exact ih.next x hx
  | acquireIp addr type func h ih => exact ih.moved (acquireFrom_spec _ type func ih).1
  | acquireIpSupernet addr type func h ih =>
    rw [SubnetList.acquireIpSupernet]
    split
    · exact ih
    · exact ih.moved (acquireFrom_spec _ type func ih).1

lemma Ordered.serves_iff (h : Ordered l) (addr : ℕ) (type : String) (func : ℕ → Bool) :
    Serves l addr type func ↔ Ahead l addr type func := by
  rw [Serves,Ahead,acquireIpSupernet]
  cases hentry : l.find? fun e => e.ipSameSubnet addr with
  | none =>
    have hnone : ¬∃ e ip,Eligible l addr type e ∧ e.ip_range.start ≤ ip ∧ ip≤e.ip_range.last ∧
        func ip=false := by
      rintro ⟨e,ip,⟨-,-,entry,hfind,-⟩,-⟩
      rw [hentry] at hfind
      cases hfind
    exact iff_of_true (fun h => absurd h hnone) fun h => absurd h hnone
  | some entry =>
    obtain ⟨-,hsome,hnone⟩ :=
      acquireFrom_spec (fun e => e.ipSameSubnet addr || e.sameSupernet entry) type func h
    have heligible : ∀ e,Eligible l addr type e ↔ e∈l ∧ e.includesType type ∧
        (e.ipSameSubnet addr || e.sameSupernet entry) := by
      intro e
      simp [Eligible,hentry]
    simp only [heligible]
    constructor
    · intro hserves hfree
      obtain ⟨-,ip,e',hresult,-⟩ := hserves hfree
      obtain ⟨e,hmem,hp,htype,hfound,-⟩ := hsome ip e' hresult
      exact ⟨e,ip,⟨hmem,htype,hp⟩,hfound⟩
    · intro hahead hfree
      obtain ⟨e,ip,⟨hmem,htype,hp⟩,hfound⟩ := hahead hfree
      cases hresult : (acquireFrom (fun e => e.ipSameSubnet addr || e.sameSupernet entry) type func
        l).1 with
      | none => exact absurd hfound (hnone hresult e hmem hp htype ip)
      | some r =>
        obtain ⟨e₁,hmem,hp,htype,hfound,heq⟩ := hsome r.1 r.2 hresult
        exact ⟨e₁,r.1,r.2,rfl,⟨hmem,htype,hp⟩,heq,
          Nat.le_trans (resume_bounds (h.next e₁ hmem)).1 hfound.1,hfound.2⟩

theorem subnets_run (h : Reached l) :
    l.Pairwise (fun a b => a.ip_range.last<b.ip_range.start) ∧
    (∀ ip,∀ a∈l,∀ b∈l,a.ipWithinIpRange ip → b.ipWithinIpRange ip → a=b) ∧
    ∀ addr type func,Serves l addr type func ↔ Ahead l addr type func := by
  refine ⟨h.ordered.sorted,fun ip a ha b hb hina hinb => ?_,h.ordered.serves_iff⟩
  simp only [SubnetEntry.ipWithinIpRange,Bool.and_eq_true,decide_eq_true_eq] at hina hinb
  by_contra hne
  have hsymm : Std.Symm fun a b : SubnetEntry =>
      a.ip_range.last<b.ip_range.start ∨ b.ip_range.last<a.ip_range.start := ⟨fun _ _ => Or.symm⟩
  have hor : l.Pairwise fun a b =>
      a.ip_range.last<b.ip_range.start ∨ b.ip_range.last<a.ip_range.start :=
    h.ordered.sorted.imp fun h => .inl h
  have hapart := hor.forall ha hb hne
  omega

/-- The addresses 2 to 4 of a subnet. -/
def threeAddresses : SubnetEntry := ⟨0,0xffffff00,⟨2,4,by decide,by decide⟩,none,none,2⟩

lemma reached_threeAddresses : Reached [threeAddresses] := .addSubnet threeAddresses .init rfl rfl

theorem subnets_run_threeAddresses :
    [threeAddresses].Pairwise (fun a b => a.ip_range.last<b.ip_range.start) ∧
    (∀ ip,∀ a ∈ [threeAddresses],∀ b ∈ [threeAddresses],a.ipWithinIpRange ip →
      b.ipWithinIpRange ip → a=b) ∧
    ∀ addr type func,Serves [threeAddresses] addr type func ↔ Ahead [threeAddresses] addr type func :=
  subnets_run reached_threeAddresses

/-- Address 4 is allocated while 2 and 3 are in use; then these are free again and 4 is not. -/
theorem not_serves_threeAddresses :
    Reached (acquireIpSupernet [threeAddresses] 2 "dhcp" (· < 4)).2 ∧
      ¬Serves (acquireIpSupernet [threeAddresses] 2 "dhcp" (· < 4)).2 2 "dhcp" (· == 4) := by
  refine ⟨.acquireIpSupernet _ _ _ reached_threeAddresses,fun h => ?_⟩
  obtain ⟨e,ip,e',hresult,-⟩ := h ⟨{threeAddresses with nextip := 4},2,
    ⟨mem_cons_self,rfl,_,rfl,.inl rfl⟩,by decide⟩
  cases hresult

end Runs

end Darwin.Bootp.SubnetList
