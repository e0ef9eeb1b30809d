import Darwin.Ipc.PortTransit

/-! In-transit ports never form a circle, whatever the threads that move them do. -/
open List Function
namespace Darwin.Ipc
open Darwin.Lib.Links Relation

variable {Port Thread : Type}

section Links

lemma link_rightUnique (ports : Port → IpcPort Port) : Relator.RightUnique (Link ports) := by
  intro p q r hq hr
  exact Option.some.inj (hq.2.symm.trans hr.2)

lemma no_link {ports : Port → IpcPort Port} {p : Port} (h : (ports p).inTransit=false)
    (q : Port) : ¬Link ports p q := by
  intro hl
  rw [hl.1] at h
  cases h

lemma link_end {ports : Port → IpcPort Port} {p : Port} (h : (ports p).inTransit=false)
    {q : Port} (hr : ReflTransGen (Link ports) p q) : p=q := by
  rcases hr.cases_head with he | ⟨r,hl,-⟩
  · exact he
  · exact absurd hl (no_link h r)

lemma limbo_inTransit : (IpcPort.limbo : IpcPort Port).inTransit=false := rfl

variable [DecidableEq Port]

lemma link_update_sub {ports : Port → IpcPort Port} {p : Port} {v : IpcPort Port}
    (hv : v.inTransit=false) {x y : Port} (h : Link (update ports p v) x y) : Link ports x y := by
  by_cases hx : x=p
  · subst x
    rw [Link,update_self,hv] at h
    cases h.1
  · rwa [Link,update_of_ne hx] at h

lemma link_update {ports : Port → IpcPort Port} {p d : Port} {v : IpcPort Port}
    (hv : v.ipDestination=some d) {x y : Port} (h : Link (update ports p v) x y) :
    Link ports x y ∨ (x=p ∧ y=d) := by
  by_cases hx : x=p
  · subst x
    rw [Link,update_self,hv] at h
    exact .inr ⟨rfl,(Option.some.inj h.2).symm⟩
  · rw [Link,update_of_ne hx] at h
    exact .inl h

end Links

section Invariant

/-- What a thread may rely on at each place: the locks it holds, that the right of `port` is in its
hand, and the chain it has locked. -/
def PlaceOk (σ : Transit Port Thread) (t : Thread) : Place Port → Prop
  | .outside | .returned _ => ∀ q,σ.locks q≠some t
  | .lockPort port dest | .multipleLock port dest =>
    σ.inHand port=some t ∧ port≠dest ∧ ∀ q,σ.locks q≠some t
  | .tryDest port dest => σ.inHand port=some t ∧ port≠dest ∧ ∀ q,σ.locks q=some t ↔ q=port
  | .search port dest base => σ.inHand port=some t ∧ port≠dest ∧
    ∃ l,Path (Link σ.ports) dest base l ∧ ∀ q,σ.locks q=some t ↔ q∈l
  | .lockLast port dest base => σ.inHand port=some t ∧ port≠base ∧ (σ.ports base).inTransit=false ∧
    ∃ l,Path (Link σ.ports) dest base l ∧ ∀ q,σ.locks q=some t ↔ q∈l ∨ q=base
  | .unlockChain port base =>
    ∃ l,Path (Link σ.ports) port base l ∧ ∀ q,σ.locks q=some t ↔ q∈l ∨ q=base
  | .unlockCircular none => ∀ q,σ.locks q≠some t
  | .unlockCircular (some dest) => ∃ base l,Path (Link σ.ports) dest base l ∧
    (σ.ports base).ipDestination=none ∧ ∀ q,σ.locks q=some t ↔ q∈l ∨ q=base

/-- No circle, rights in hand only of ports in limbo, and every thread in order. -/
structure TransitOk (σ : Transit Port Thread) : Prop where
  acyclic : Acyclic (Link σ.ports)
  finite : {p | ∃ q,Link σ.ports p q}.Finite
  limbo : ∀ p t,σ.inHand p=some t → σ.ports p=.limbo
  places : ∀ t,PlaceOk σ t (σ.place t)

/-- What the steps of one thread leave alone: the places and the locks of the others, and every
port that another thread has locked or has the right of. -/
structure OthersKept (t : Thread) (σ σ' : Transit Port Thread) : Prop where
  place : ∀ u,u≠t → σ'.place u=σ.place u
  locks : ∀ q u,u≠t → (σ'.locks q=some u ↔ σ.locks q=some u)
  hand : ∀ q u,u≠t → (σ'.inHand q=some u ↔ σ.inHand q=some u)
  locked : ∀ q u,u≠t → σ.locks q=some u → σ'.ports q=σ.ports q
  held : ∀ q u,u≠t → σ.inHand q=some u → σ'.ports q=σ.ports q

lemma OthersKept.refl (t : Thread) (σ : Transit Port Thread) : OthersKept t σ σ :=
  ⟨fun _ _ => rfl,fun _ _ _ => .rfl,fun _ _ _ => .rfl,fun _ _ _ _ => rfl,fun _ _ _ _ => rfl⟩

lemma OthersKept.trans {t : Thread} {σ τ υ : Transit Port Thread} (h : OthersKept t σ τ)
    (g : OthersKept t τ υ) : OthersKept t σ υ where
  place := fun u hu => (g.place u hu).trans (h.place u hu)
  locks := fun q u hu => (g.locks q u hu).trans (h.locks q u hu)
  hand := fun q u hu => (g.hand q u hu).trans (h.hand q u hu)
  locked := fun q u hu hq => (g.locked q u hu ((h.locks q u hu).mpr hq)).trans (h.locked q u hu hq)
  held := fun q u hu hq => (g.held q u hu ((h.hand q u hu).mpr hq)).trans (h.held q u hu hq)

variable {σ σ' : Transit Port Thread}

lemma Path.others {t u : Thread} (h : OthersKept t σ σ')
    (hu : u≠t) {a b : Port} {l : List Port} (hl : Path (Link σ.ports) a b l)
    (hlocks : ∀ q∈l,σ.locks q=some u) : Path (Link σ'.ports) a b l := by
  refine hl.congr fun q hq r hr => ?_
  rw [Link,h.locked q u hu (hlocks q hq)]
  exact hr

lemma PlaceOk.others {t u : Thread} (h : OthersKept t σ σ')
    (hu : u≠t) {place : Place Port} (hp : PlaceOk σ u place) : PlaceOk σ' u place := by
  have hnone : (∀ q,σ.locks q≠some u) → ∀ q,σ'.locks q≠some u :=
    fun hq q hl => hq q ((h.locks q u hu).mp hl)
  cases place with
  | outside => exact hnone hp
  | returned circular => exact hnone hp
  | lockPort port dest => exact ⟨(h.hand port u hu).mpr hp.1,hp.2.1,hnone hp.2.2⟩
  | multipleLock port dest => exact ⟨(h.hand port u hu).mpr hp.1,hp.2.1,hnone hp.2.2⟩
  | tryDest port dest =>
    exact ⟨(h.hand port u hu).mpr hp.1,hp.2.1,fun q => (h.locks q u hu).trans (hp.2.2 q)⟩
  | search port dest base =>
    obtain ⟨hhand,hne,l,hl,hlocks⟩ := hp
    exact ⟨(h.hand port u hu).mpr hhand,hne,l,
      Path.others h hu hl fun q hq => (hlocks q).mpr hq,fun q => (h.locks q u hu).trans (hlocks q)⟩
  | lockLast port dest base =>
    obtain ⟨hhand,hne,hbase,l,hl,hlocks⟩ := hp
    refine ⟨(h.hand port u hu).mpr hhand,hne,?_,l,
      Path.others h hu hl fun q hq => (hlocks q).mpr (.inl hq),
      fun q => (h.locks q u hu).trans (hlocks q)⟩
    rw [h.locked base u hu ((hlocks base).mpr (.inr rfl))]
    exact hbase
  | unlockChain port base =>
    obtain ⟨l,hl,hlocks⟩ := hp
    exact ⟨l,Path.others h hu hl fun q hq => (hlocks q).mpr (.inl hq),
      fun q => (h.locks q u hu).trans (hlocks q)⟩
  | unlockCircular dest =>
    cases dest with
    | none => exact hnone hp
    | some dest =>
      obtain ⟨base,l,hl,hbase,hlocks⟩ := hp
      refine ⟨base,l,Path.others h hu hl fun q hq => (hlocks q).mpr (.inl hq),?_,
        fun q => (h.locks q u hu).trans (hlocks q)⟩
      rw [h.locked base u hu ((hlocks base).mpr (.inr rfl))]
      exact hbase

lemma TransitOk.of_kept {t : Thread} (h : TransitOk σ)
    (hkept : OthersKept t σ σ') (hacyclic : Acyclic (Link σ'.ports))
    (hfinite : {p | ∃ q,Link σ'.ports p q}.Finite)
    (hlimbo : ∀ p,σ'.inHand p=some t → σ'.ports p=.limbo)
    (hplace : PlaceOk σ' t (σ'.place t)) : TransitOk σ' := by
  refine ⟨hacyclic,hfinite,fun p u hp => ?_,fun u => ?_⟩
  · by_cases hu : u=t
    · exact hlimbo p (hu▸hp)
    · have hold := (hkept.hand p u hu).mp hp
      rw [hkept.held p u hu hold]
      exact h.limbo p u hold
  · by_cases hu : u=t
    · rw [hu]
      exact hplace
    · rw [hkept.place u hu]
      exact (h.places u).others hkept hu

end Invariant

section Steps
variable [DecidableEq Port] [DecidableEq Thread]

def Own (t : Thread) (holder : Option Thread) : Prop := holder=none ∨ holder=some t

variable {t : Thread} {σ σ' : Transit Port Thread} {p : Port} {f : Port → Option Thread}
    {holder : Option Thread}

omit [DecidableEq Thread] in
lemma own_update_iff {t u : Thread} (hu : u≠t)
    (h : Own t (f p)) (h' : Own t holder) (q : Port) : update f p holder q=some u ↔ f q=some u := by
  by_cases hq : q=p
  · subst q
    rw [update_self]
    have hne : ∀ o : Option Thread,Own t o → o≠some u := by
      rintro o (rfl | rfl) he
      · cases he
      · exact hu (Option.some.inj he).symm
    exact iff_of_false (hne holder h') (hne (f p) h)
  · rw [update_of_ne hq]

omit [DecidableEq Port] in
lemma kept_setPlace (σ : Transit Port Thread) (t : Thread) (place : Place Port) :
    OthersKept t σ (σ.setPlace t place) :=
  {OthersKept.refl t σ with place := fun u hu => by simp [Transit.setPlace,hu]}

omit [DecidableEq Thread] in
lemma kept_setLock {σ : Transit Port Thread}
    (h : Own t (σ.locks p)) (h' : Own t holder) : OthersKept t σ (σ.setLock p holder) :=
  {OthersKept.refl t σ with locks := fun q _ hu => own_update_iff hu h h' q}

omit [DecidableEq Thread] in
lemma kept_setHand {σ : Transit Port Thread}
    (h : Own t (σ.inHand p)) (h' : Own t holder) : OthersKept t σ (σ.setHand p holder) :=
  {OthersKept.refl t σ with hand := fun q _ hu => own_update_iff hu h h' q}

omit [DecidableEq Thread] in
lemma kept_setPort {σ : Transit Port Thread} (value : IpcPort Port)
    (hl : Own t (σ.locks p)) (hh : Own t (σ.inHand p)) : OthersKept t σ (σ.setPort p value) := by
  have hother : ∀ (f : Port → Option Thread),Own t (f p) → ∀ q u,u≠t → f q=some u →
      (σ.setPort p value).ports q=σ.ports q := by
    intro f hf q u hu hq
    have hne : q≠p := by
      rintro rfl
      rcases hf with he | he
      · rw [he] at hq
        cases hq
      · exact hu (Option.some.inj (hq.symm.trans he))
    simp [Transit.setPort,hne]
  exact { OthersKept.refl t σ with
    locked := hother σ.locks hl
    held := hother σ.inHand hh}

omit [DecidableEq Port] [DecidableEq Thread] in
lemma kept_multipleLock (σ : Transit Port Thread) (t : Thread) (holder : Option Thread) :
    OthersKept t σ {σ with multipleLock := holder} :=
  ⟨fun _ _ => rfl,fun _ _ _ => .rfl,fun _ _ _ => .rfl,fun _ _ _ _ => rfl,fun _ _ _ _ => rfl⟩

omit [DecidableEq Thread] in
lemma kept_link {σ : Transit Port Thread} (dest : Port)
    (hl : Own t (σ.locks p)) (hh : Own t (σ.inHand p)) : OthersKept t σ (σ.link p dest) :=
  (kept_setPort _ hl hh).trans (kept_setHand hh (.inl rfl))

/-- All that a step inside `ipc_port_check_circularity` can do. -/
inductive Proceeds (σ : Transit Port Thread) (t : Thread) : Transit Port Thread → Prop
  | lockPort (port dest : Port) (hp : σ.place t=.lockPort port dest)
    (hl : σ.locks port=none) :
    Proceeds σ t ((σ.setLock port (some t)).setPlace t (.tryDest port dest))
  | givesUp (port dest : Port) (hp : σ.place t=.tryDest port dest) :
    Proceeds σ t ((σ.setLock port none).setPlace t (.multipleLock port dest))
  | linksFast (port dest : Port) (hp : σ.place t=.tryDest port dest)
    (hl : σ.locks dest=none) (hd : (σ.ports dest).inTransit=false) : Proceeds σ t
      (((σ.setLock dest (some t)).link port dest).setPlace t (.unlockChain port dest))
  | multipleLock (port dest : Port) (hp : σ.place t=.multipleLock port dest) :
    Proceeds σ t ({σ with multipleLock := some t}.setPlace t (.search port dest dest))
  | walks (port dest base next : Port) (hp : σ.place t=.search port dest base)
    (hl : σ.locks base=none) (hlink : Link σ.ports base next) :
    Proceeds σ t ((σ.setLock base (some t)).setPlace t (.search port dest next))
  | finds (port dest : Port) (hp : σ.place t=.search port dest port)
    (hl : σ.locks port=none) (hd : (σ.ports port).inTransit=false) :
    Proceeds σ t ({σ.setLock port (some t) with multipleLock := none}.setPlace t
      (.unlockCircular (some dest)))
  | ends (port dest base : Port) (hp : σ.place t=.search port dest base)
    (hl : σ.locks base=none) (hd : (σ.ports base).inTransit=false) (hne : port≠base) :
    Proceeds σ t ((σ.setLock base (some t)).setPlace t (.lockLast port dest base))
  | linksSlow (port dest base : Port) (hp : σ.place t=.lockLast port dest base)
    (hl : σ.locks port=none) : Proceeds σ t
      (({σ.setLock port (some t) with multipleLock := none}.link port dest).setPlace t
        (.unlockChain port base))
  | unlocks (port base next : Port) (hp : σ.place t=.unlockChain port base)
    (hne : port≠base) (hn : (σ.ports port).ipDestination=some next) :
    Proceeds σ t ((σ.setLock port none).setPlace t (.unlockChain next base))
  | unlocked (base : Port) (hp : σ.place t=.unlockChain base base) :
    Proceeds σ t ((σ.setLock base none).setPlace t (.returned false))
  | unlocksCircular (dest : Port) (hp : σ.place t=.unlockCircular (some dest)) : Proceeds σ t
      ((σ.setLock dest none).setPlace t (.unlockCircular (σ.ports dest).ipDestination))
  | circular (hp : σ.place t=.unlockCircular none) : Proceeds σ t (σ.setPlace t (.returned true))

lemma proceed_proceeds {tryLock : Bool}
    (hs : σ.proceed t tryLock=some σ') : Proceeds σ t σ' := by
  unfold Transit.proceed at hs
  cases hp : σ.place t with
  | outside => simp [hp] at hs
  | returned circular => simp [hp] at hs
  | lockPort port dest =>
    simp only [hp] at hs
    split at hs
    · cases hs
    · rename_i hl
      cases hs
      exact .lockPort port dest hp (by simpa using hl)
  | tryDest port dest =>
    simp only [hp] at hs
    split at hs
    · rename_i hl
      split at hs
      · cases hs
        exact .givesUp port dest hp
      · rename_i hd
        cases hs
        simp only [Bool.and_eq_true,Option.isNone_iff_eq_none] at hl
        exact .linksFast port dest hp hl.2 (by simpa using hd)
    · cases hs
      exact .givesUp port dest hp
  | multipleLock port dest =>
    simp only [hp] at hs
    split at hs
    · cases hs
    · cases hs
      exact .multipleLock port dest hp
  | search port dest base =>
    simp only [hp] at hs
    split at hs
    · cases hs
    · rename_i hl
      have hl' : σ.locks base=none := by simpa using hl
      split at hs
      · rename_i next htransit hn
        cases hs
        exact .walks port dest base next hp hl' ⟨htransit,hn⟩
      · rename_i hend
        have hd : (σ.ports base).inTransit=false := by
          cases hd : (σ.ports base).inTransit with
          | false => rfl
          | true =>
            cases hn : (σ.ports base).ipDestination with
            | none => simp [IpcPort.inTransit,hn] at hd
            | some next => exact absurd hn (hend next hd)
        split at hs
        · rename_i he
          subst he
          cases hs
          exact .finds port dest hp hl' hd
        · rename_i hne
          cases hs
          exact .ends port dest base hp hl' hd hne
  | lockLast port dest base =>
    simp only [hp] at hs
    split at hs
    · cases hs
    · rename_i hl
      cases hs
      exact .linksSlow port dest base hp (by simpa using hl)
  | unlockChain port base =>
    simp only [hp] at hs
    split at hs
    · rename_i he
      subst he
      cases hs
      exact .unlocked port hp
    · rename_i hne
      split at hs
      · rename_i next hn
        cases hs
        exact .unlocks port base next hp hne hn
      · cases hs
  | unlockCircular dest =>
    cases dest with
    | none =>
      simp only [hp] at hs
      cases hs
      exact .circular hp
    | some dest =>
      simp only [hp] at hs
      cases hs
      exact .unlocksCircular dest hp

omit [DecidableEq Port] [DecidableEq Thread] in
lemma TransitOk.of_same (h : TransitOk σ)
    (hkept : OthersKept t σ σ') (hports : σ'.ports=σ.ports) (hhand : σ'.inHand=σ.inHand)
    (hplace : PlaceOk σ' t (σ'.place t)) : TransitOk σ' :=
  h.of_kept hkept (hports▸h.acyclic) (hports▸h.finite)
    (fun p hp => by rw [hports]; exact h.limbo p t (hhand▸hp)) hplace

omit [DecidableEq Thread] in
lemma TransitOk.linked (h : TransitOk σ)
    {port dest : Port} (hhand : σ.inHand port=some t) (hkept : OthersKept t σ σ')
    (hports : σ'.ports =
      update σ.ports port {σ.ports port with ipDestination := some dest})
    (hhands : σ'.inHand=update σ.inHand port none)
    (hdest : ¬ReflTransGen (Link σ.ports) dest port)
    (hplace : PlaceOk σ' t (σ'.place t)) : TransitOk σ' := by
  refine h.of_kept hkept ?_ ?_ (fun p hp => ?_) hplace
  · rw [hports]
    exact h.acyclic.link (fun x y => link_update rfl) hdest
  · rw [hports]
    refine (h.finite.insert port).subset fun x hx => ?_
    obtain ⟨y,hxy⟩ := hx
    exact (link_update rfl hxy).elim (fun hl => .inr ⟨y,hl⟩) fun he => .inl he.1
  · have hne : p≠port := by
      rintro rfl
      simp [hhands] at hp
    rw [hhands,update_of_ne hne] at hp
    rw [hports,update_of_ne hne]
    exact h.limbo p t hp

omit [DecidableEq Port] [DecidableEq Thread] in
lemma TransitOk.inHand_inTransit {σ : Transit Port Thread} (h : TransitOk σ)
    (hp : σ.inHand p=some t) : (σ.ports p).inTransit=false := by
  rw [h.limbo p t hp]
  exact limbo_inTransit

omit [DecidableEq Port] in
lemma setPlace_place (σ : Transit Port Thread) (t : Thread) (place : Place Port) :
    (σ.setPlace t place).place t=place := by
  simp [Transit.setPlace]

omit [DecidableEq Port] in
lemma placeOk_setPlace {σ : Transit Port Thread} {place : Place Port}
    (h : PlaceOk σ t place) : PlaceOk (σ.setPlace t place) t ((σ.setPlace t place).place t) := by
  rw [setPlace_place]
  cases place with
  | unlockCircular dest => cases dest <;> exact h
  | _ => exact h

omit [DecidableEq Thread] in
lemma locks_erase (q : Port) : update f p none q=some t ↔ q≠p ∧ f q=some t := by
  by_cases hq : q=p
  · subst q
    simp
  · rw [update_of_ne hq]
    simp [hq]

omit [DecidableEq Thread] in
lemma locks_insert {l : List Port} {b : Port}
    (h : ∀ q,f q=some t ↔ q∈l) (q : Port) : update f b (some t) q=some t ↔ q∈l++[b] := by
  by_cases hq : q=b
  · subst q
    simp
  · rw [update_of_ne hq,h q]
    simp [hq]

omit [DecidableEq Thread] in
lemma locks_tail {p base : Port} {l : List Port}
    (hself : p∉l) (hne : p≠base) (h : ∀ q,f q=some t ↔ q∈p::l ∨ q=base) (q : Port) :
    update f p none q=some t ↔ q∈l ∨ q=base := by
  refine (locks_erase q).trans ?_
  rw [h q,mem_cons]
  constructor
  · rintro ⟨hqp,(he | hq) | hq⟩
    · exact absurd he hqp
    · exact .inl hq
    · exact .inr hq
  · rintro (hq | rfl)
    · exact ⟨fun he => hself (he▸hq),.inl (.inr hq)⟩
    · exact ⟨hne.symm,.inr rfl⟩

lemma Proceeds.ok (h : TransitOk σ)
    (hs : Proceeds σ t σ') : TransitOk σ' := by
  have hplace := h.places t
  cases hs with
  | lockPort port dest hp hl =>
    rw [hp] at hplace
    obtain ⟨hhand,hne,hnone⟩ := hplace
    refine h.of_same ((kept_setLock (.inl hl) (.inr rfl)).trans (kept_setPlace _ t _)) rfl rfl
      (placeOk_setPlace ⟨hhand,hne,fun q => ?_⟩)
    have hlocks := locks_insert (f := σ.locks) (t := t) (l := []) (b := port)
      (fun q => iff_of_false (hnone q) not_mem_nil) q
    exact hlocks.trans (by simp)
  | givesUp port dest hp =>
    rw [hp] at hplace
    obtain ⟨hhand,hne,hlocks⟩ := hplace
    refine h.of_same ((kept_setLock (.inr ((hlocks port).mpr rfl)) (.inl rfl)).trans
      (kept_setPlace _ t _)) rfl rfl (placeOk_setPlace ⟨hhand,hne,fun q hq => ?_⟩)
    obtain ⟨hqp,hq⟩ := (locks_erase q).mp hq
    exact hqp ((hlocks q).mp hq)
  | linksFast port dest hp hl hd =>
    rw [hp] at hplace
    obtain ⟨hhand,hne,hlocks⟩ := hplace
    have hkept : OthersKept t σ (((σ.setLock dest (some t)).link port dest).setPlace t
        (.unlockChain port dest)) := by
      have hport : Own t ((σ.setLock dest (some t)).locks port) := by
        simp only [Transit.setLock,update_of_ne hne]
        exact .inr ((hlocks port).mpr rfl)
      exact ((kept_setLock (.inl hl) (.inr rfl)).trans (kept_link dest hport (.inr hhand))).trans
        (kept_setPlace _ t _)
    refine h.linked hhand hkept rfl rfl (fun hr => hne (link_end hd hr).symm)
      (placeOk_setPlace ⟨[port],.cons ⟨?_,?_⟩ (.nil dest),fun q => ?_⟩)
    · simp [Transit.link,Transit.setPort,Transit.setHand,Transit.setLock,h.limbo port t hhand,
        IpcPort.limbo,IpcPort.inTransit]
    · simp [Transit.link,Transit.setPort,Transit.setHand,Transit.setLock]
    · have hinsert := locks_insert (f := σ.locks) (l := [port]) (b := dest)
        (fun q => (hlocks q).trans mem_singleton.symm) q
      exact hinsert.trans (by simp)
  | multipleLock port dest hp =>
    rw [hp] at hplace
    obtain ⟨hhand,hne,hnone⟩ := hplace
    exact h.of_same ((kept_multipleLock σ t _).trans (kept_setPlace _ t _)) rfl rfl
      (placeOk_setPlace ⟨hhand,hne,[],.nil dest,
        fun q => iff_of_false (hnone q) not_mem_nil⟩)
  | walks port dest base next hp hl hlink =>
    rw [hp] at hplace
    obtain ⟨hhand,hne,l,hpath,hlocks⟩ := hplace
    exact h.of_same ((kept_setLock (.inl hl) (.inr rfl)).trans (kept_setPlace _ t _)) rfl rfl
      (placeOk_setPlace ⟨hhand,hne,l++[base],hpath.snoc hlink,locks_insert hlocks⟩)
  | finds port dest hp hl hd =>
    rw [hp] at hplace
    obtain ⟨hhand,hne,l,hpath,hlocks⟩ := hplace
    refine h.of_same (((kept_setLock (.inl hl) (.inr rfl)).trans (kept_multipleLock _ t _)).trans
      (kept_setPlace _ t _)) rfl rfl (placeOk_setPlace ⟨port,l,hpath,?_,fun q => ?_⟩)
    · exact congrArg IpcPort.ipDestination (h.limbo port t hhand)
    · exact (locks_insert hlocks q).trans (by simp)
  | ends port dest base hp hl hd hne =>
    rw [hp] at hplace
    obtain ⟨hhand,-,l,hpath,hlocks⟩ := hplace
    refine h.of_same ((kept_setLock (.inl hl) (.inr rfl)).trans (kept_setPlace _ t _)) rfl rfl
      (placeOk_setPlace ⟨hhand,hne,hd,l,hpath,fun q => ?_⟩)
    exact (locks_insert hlocks q).trans (by simp)
  | linksSlow port dest base hp hl =>
    rw [hp] at hplace
    obtain ⟨hhand,hne,hbase,l,hpath,hlocks⟩ := hplace
    have hport : (σ.ports port).inTransit=false := h.inHand_inTransit hhand
    have hdest : ¬ReflTransGen (Link σ.ports) dest port := fun hr =>
      hne (end_unique (link_rightUnique σ.ports) hr hpath.reach (no_link hport) (no_link hbase))
    have hkept : OthersKept t σ
        (({σ.setLock port (some t) with multipleLock := none}.link port dest).setPlace t
          (.unlockChain port base)) := by
      have hown : Own t ((σ.setLock port (some t)).locks port) := by
        simp only [Transit.setLock,update_self]
        exact .inr rfl
      have hlink := kept_link (σ := {σ.setLock port (some t) with multipleLock := none}) dest
        hown (.inr hhand)
      exact (((kept_setLock (.inl hl) (.inr rfl)).trans (kept_multipleLock _ t none)).trans
        hlink).trans (kept_setPlace _ t _)
    refine h.linked hhand hkept rfl rfl hdest
      (placeOk_setPlace ⟨port::l,.cons ⟨?_,?_⟩ (hpath.congr fun q hq r hr => ?_),fun q => ?_⟩)
    · simp [Transit.link,Transit.setPort,Transit.setHand,Transit.setLock,h.limbo port t hhand,
        IpcPort.limbo,IpcPort.inTransit]
    · simp [Transit.link,Transit.setPort,Transit.setHand,Transit.setLock]
    · have hqp : q≠port := by
        rintro rfl
        exact no_link hport r hr
      simpa [Link,Transit.link,Transit.setPort,Transit.setHand,Transit.setLock,
        update_of_ne hqp] using hr
    · have hinsert := locks_insert (f := σ.locks) (l := l++[base]) (b := port)
        (fun q => (hlocks q).trans (by simp)) q
      exact hinsert.trans (by simp [or_comm,or_assoc,or_left_comm])
  | unlocks port base next hp hne hn =>
    rw [hp] at hplace
    obtain ⟨l,hpath,hlocks⟩ := hplace
    have hmine : σ.locks port=some t := by
      refine (hlocks port).mpr (.inl ?_)
      cases hpath with
      | nil => exact absurd rfl hne
      | cons => exact mem_cons_self
    refine h.of_same ((kept_setLock (.inr hmine) (.inl rfl)).trans (kept_setPlace _ t _)) rfl rfl
      (placeOk_setPlace ?_)
    cases hpath with
    | nil => exact absurd rfl hne
    | cons hlink hrest =>
      rename_i b l
      obtain rfl : b=next := Option.some.inj (hlink.2.symm.trans hn)
      exact ⟨l,hrest,locks_tail (hrest.notMem_tail h.acyclic hlink) hne hlocks⟩
  | unlocked base hp =>
    rw [hp] at hplace
    obtain ⟨l,hpath,hlocks⟩ := hplace
    obtain rfl : l=[] := by
      cases hpath with
      | nil => rfl
      | cons hlink hrest => exact absurd rfl (hrest.ne_end h.acyclic hlink)
    have hmine : σ.locks base=some t := (hlocks base).mpr (.inr rfl)
    refine h.of_same ((kept_setLock (.inr hmine) (.inl rfl)).trans (kept_setPlace _ t _)) rfl rfl
      (placeOk_setPlace fun q hq => ?_)
    obtain ⟨hqb,hq⟩ := (locks_erase q).mp hq
    exact ((hlocks q).mp hq).elim not_mem_nil hqb
  | unlocksCircular dest hp =>
    rw [hp] at hplace
    obtain ⟨base,l,hpath,hbase,hlocks⟩ := hplace
    cases hpath with
    | nil =>
      have hmine : σ.locks dest=some t := (hlocks dest).mpr (.inr rfl)
      rw [hbase]
      refine h.of_same ((kept_setLock (.inr hmine) (.inl rfl)).trans (kept_setPlace _ t _)) rfl rfl
        (placeOk_setPlace fun q hq => ?_)
      obtain ⟨hqb,hq⟩ := (locks_erase q).mp hq
      exact ((hlocks q).mp hq).elim not_mem_nil hqb
    | cons hlink hrest =>
      rename_i b l
      have hmine : σ.locks dest=some t := (hlocks dest).mpr (.inl mem_cons_self)
      rw [hlink.2]
      exact h.of_same ((kept_setLock (.inr hmine) (.inl rfl)).trans (kept_setPlace _ t _)) rfl rfl
        (placeOk_setPlace ⟨base,l,hrest,hbase,
          locks_tail (hrest.notMem_tail h.acyclic hlink) (hrest.ne_end h.acyclic hlink) hlocks⟩)
  | circular hp =>
    rw [hp] at hplace
    exact h.of_same (kept_setPlace σ t _) rfl rfl (placeOk_setPlace hplace)

omit [DecidableEq Port] in
lemma mayTake_iff {σ : Transit Port Thread}
    (h : σ.mayTake t p=true) : σ.place t=.outside ∧ σ.locks p=none ∧ Own t (σ.inHand p) := by
  simp only [Transit.mayTake,Bool.and_eq_true,Bool.or_eq_true,beq_iff_eq,
    Option.isNone_iff_eq_none] at h
  refine ⟨?_,h.1.2,h.2⟩
  have hplace := h.1.1
  split at hplace
  · assumption
  · cases hplace

lemma TransitOk.moved (h : TransitOk σ)
    (hm : σ.mayTake t p=true) {value : IpcPort Port} (hv : value.inTransit=false)
    (hholder : Own t holder)
    (hlimbo : holder=some t → value=.limbo)
    (hσ' : σ'=(σ.setPort p value).setHand p holder) : TransitOk σ' := by
  obtain ⟨hp,hl,hh⟩ := mayTake_iff hm
  have hkept : OthersKept t σ σ' := by
    rw [hσ']
    exact (kept_setPort value (.inl hl) hh).trans (kept_setHand hh hholder)
  have hplace := h.places t
  rw [hp] at hplace
  refine h.of_kept hkept ?_ ?_ (fun q hq => ?_) ?_
  · rw [hσ']
    exact h.acyclic.mono fun x y => link_update_sub hv
  · rw [hσ']
    refine h.finite.subset fun x hx => ?_
    obtain ⟨y,hxy⟩ := hx
    exact ⟨y,link_update_sub hv hxy⟩
  · subst hσ'
    by_cases hqp : q=p
    · subst q
      simp only [Transit.setHand,update_self] at hq
      simp [Transit.setHand,Transit.setPort,hlimbo hq]
    · simp only [Transit.setHand,Transit.setPort,update_of_ne hqp] at hq ⊢
      exact h.limbo q t hq
  · rw [hσ']
    change PlaceOk _ t (σ.place t)
    rw [hp]
    exact hplace

lemma step_ok {a : PortAction Port}
    (h : TransitOk σ) (hs : σ.step t a=some σ') : TransitOk σ' := by
  cases a with
  | alloc port name receiver =>
    simp only [Transit.step] at hs
    split at hs
    · rename_i hc
      simp only [Bool.and_eq_true,bne_iff_ne,ne_eq] at hc
      cases hs
      have hhand : σ.inHand port=none := by
        cases hu : σ.inHand port with
        | none => rfl
        | some u => simp [h.limbo port u hu,IpcPort.limbo] at hc
      have hout : (⟨true,name,receiver⟩ : IpcPort Port).inTransit=false := by
        simp [IpcPort.inTransit,show ¬name=0#32 from hc.2]
      refine h.moved hc.1.1 hout (.inl rfl) (fun he => by cases he) ?_
      simp [Transit.setHand,Transit.setPort,←hhand]
    · cases hs
  | copyin port =>
    simp only [Transit.step] at hs
    split at hs
    · rename_i hc
      simp only [Bool.and_eq_true] at hc
      cases hs
      exact h.moved hc.1.1 limbo_inTransit (.inr rfl) (fun _ => rfl) rfl
    · cases hs
  | copyout port name receiver =>
    simp only [Transit.step] at hs
    split at hs
    · rename_i hc
      simp only [Bool.and_eq_true,bne_iff_ne,ne_eq] at hc
      cases hs
      refine h.moved hc.1.1.1 ?_ (.inl rfl) (fun he => by cases he) rfl
      simp [IpcPort.inTransit,show ¬name=0#32 from hc.2]
    · cases hs
  | destroy port timestamp =>
    simp only [Transit.step] at hs
    split at hs
    · rename_i hc
      simp only [Bool.and_eq_true] at hc
      cases hs
      exact h.moved hc.1 (by simp [IpcPort.inTransit]) (.inl rfl) (fun he => by cases he) rfl
    · cases hs
  | backup port =>
    simp only [Transit.step] at hs
    split at hs
    · rename_i hc
      simp only [Bool.and_eq_true] at hc
      cases hs
      exact h.moved hc.1 limbo_inTransit (.inr rfl) (fun _ => rfl) rfl
    · cases hs
  | checkCircularity port dest =>
    simp only [Transit.step] at hs
    have hplace := h.places t
    split at hs
    · rename_i hp
      rw [hp] at hplace
      split at hs
      · rename_i hhand
        cases hs
        refine h.of_same (kept_setPlace σ t _) rfl rfl (placeOk_setPlace ?_)
        split
        · exact hplace
        · rename_i hne
          exact ⟨hhand,hne,hplace⟩
      · cases hs
    · cases hs
  | proceed tryLock => exact (proceed_proceeds hs).ok h
  | resume =>
    simp only [Transit.step] at hs
    have hplace := h.places t
    split at hs
    · rename_i hp
      rw [hp] at hplace
      cases hs
      exact h.of_same (kept_setPlace σ t _) rfl rfl (placeOk_setPlace hplace)
    · cases hs

omit [DecidableEq Port] [DecidableEq Thread] in
lemma start_ok (name : Port → MachPortName) (receiver : Port → Option Port) :
    TransitOk (Transit.start name receiver : Transit Port Thread) := by
  have hnone : ∀ p q,¬Link (Transit.start name receiver : Transit Port Thread).ports p q := by
    intro p q
    refine no_link ?_ q
    by_cases hp : name p=0 <;> simp [Transit.start,IpcPort.inTransit,hp]
  refine ⟨fun p hp => ?_,?_,fun p t hp => ?_,fun t q hq => ?_⟩
  · obtain ⟨q,hq,-⟩ := TransGen.head'_iff.mp hp
    exact hnone p q hq
  · refine Set.finite_empty.subset fun p hp => ?_
    obtain ⟨q,hq⟩ := hp
    exact hnone p q hq
  · cases hp
  · cases hq

lemma run_ok {as : List (Thread × PortAction Port)}
    (h : TransitOk σ) (hr : σ.run as=some σ') : TransitOk σ' := by
  induction as generalizing σ with
  | nil =>
    cases hr
    exact h
  | cons ta as ih =>
    obtain ⟨t,a⟩ := ta
    simp only [Transit.run,Option.bind_eq_some_iff] at hr
    obtain ⟨τ,hone,hrest⟩ := hr
    exact ih (step_ok h hone) hrest

end Steps

section Answers
variable [DecidableEq Port] [DecidableEq Thread]

def Place.call : Place Port → Option (Port × Port)
  | .lockPort port dest | .tryDest port dest | .multipleLock port dest | .search port dest _ |
    .lockLast port dest _ => some (port,dest)
  | _ => none

def Place.answer : Place Port → Option Bool
  | .unlockChain _ _ => some false
  | .unlockCircular _ => some true
  | .returned circular => some circular
  | _ => none

def decided (ports : Port → IpcPort Port) (port dest : Port) (circular : Bool) :
    Port → IpcPort Port :=
  if circular then ports
  else update ports port {ports port with ipDestination := some dest}

variable {t : Thread} {σ σ' : Transit Port Thread}

lemma Proceeds.decides (h : TransitOk σ)
    (hs : Proceeds σ t σ') {port dest : Port} (hcall : (σ.place t).call=some (port,dest)) :
    ((σ'.place t).call=some (port,dest) ∧ σ'.ports=σ.ports) ∨
      ∃ circular,(σ'.place t).answer=some circular ∧
        (circular=true ↔ ReflTransGen (Link σ.ports) dest port) ∧
        σ'.ports=decided σ.ports port dest circular := by
  have hplace := h.places t
  cases hs with
  | lockPort port dest hp hl =>
    rw [hp] at hcall
    exact .inl ⟨by rw [setPlace_place]; exact hcall,rfl⟩
  | givesUp port dest hp =>
    rw [hp] at hcall
    exact .inl ⟨by rw [setPlace_place]; exact hcall,rfl⟩
  | linksFast port dest hp hl hd =>
    rw [hp] at hcall hplace
    cases hcall
    refine .inr ⟨false,by rw [setPlace_place]; rfl,?_,rfl⟩
    exact iff_of_false Bool.false_ne_true fun hr => hplace.2.1 (link_end hd hr).symm
  | multipleLock port dest hp =>
    rw [hp] at hcall
    exact .inl ⟨by rw [setPlace_place]; exact hcall,rfl⟩
  | walks port dest base next hp hl hlink =>
    rw [hp] at hcall
    exact .inl ⟨by rw [setPlace_place]; exact hcall,rfl⟩
  | finds port dest hp hl hd =>
    rw [hp] at hcall hplace
    cases hcall
    obtain ⟨-,-,l,hpath,-⟩ := hplace
    exact .inr ⟨true,by rw [setPlace_place]; rfl,iff_of_true rfl hpath.reach,rfl⟩
  | ends port dest base hp hl hd hne =>
    rw [hp] at hcall
    exact .inl ⟨by rw [setPlace_place]; exact hcall,rfl⟩
  | linksSlow port dest base hp hl =>
    rw [hp] at hcall hplace
    cases hcall
    obtain ⟨hhand,hne,hbase,l,hpath,-⟩ := hplace
    refine .inr ⟨false,by rw [setPlace_place]; rfl,?_,rfl⟩
    exact iff_of_false Bool.false_ne_true fun hr => hne (end_unique (link_rightUnique σ.ports)
      hr hpath.reach (no_link (h.inHand_inTransit hhand)) (no_link hbase))
  | unlocks port base next hp hne hn => simp [hp,Place.call] at hcall
  | unlocked base hp => simp [hp,Place.call] at hcall
  | unlocksCircular dest hp => simp [hp,Place.call] at hcall
  | circular hp => simp [hp,Place.call] at hcall

lemma Proceeds.returns (hs : Proceeds σ t σ')
    {circular : Bool} (ha : (σ.place t).answer=some circular) :
    (σ'.place t).answer=some circular ∧ σ'.ports=σ.ports := by
  cases hs with
  | lockPort port dest hp hl => simp [hp,Place.answer] at ha
  | givesUp port dest hp => simp [hp,Place.answer] at ha
  | linksFast port dest hp hl hd => simp [hp,Place.answer] at ha
  | multipleLock port dest hp => simp [hp,Place.answer] at ha
  | walks port dest base next hp hl hlink => simp [hp,Place.answer] at ha
  | finds port dest hp hl hd => simp [hp,Place.answer] at ha
  | ends port dest base hp hl hd hne => simp [hp,Place.answer] at ha
  | linksSlow port dest base hp hl => simp [hp,Place.answer] at ha
  | unlocks port base next hp hne hn =>
    rw [hp] at ha
    exact ⟨by rw [setPlace_place]; exact ha,rfl⟩
  | unlocked base hp =>
    rw [hp] at ha
    exact ⟨by rw [setPlace_place]; exact ha,rfl⟩
  | unlocksCircular dest hp =>
    rw [hp] at ha
    exact ⟨by rw [setPlace_place]; exact ha,rfl⟩
  | circular hp =>
    rw [hp] at ha
    exact ⟨by rw [setPlace_place]; exact ha,rfl⟩

def Alone (t : Thread) (σ σ' : Transit Port Thread) : Prop :=
  ∃ n : ℕ,σ.run (replicate n (t,.proceed true))=some σ'

lemma Alone.refl (t : Thread) (σ : Transit Port Thread) : Alone t σ σ := ⟨0,rfl⟩

lemma Alone.head {σ τ υ : Transit Port Thread} (h : σ.proceed t true=some τ)
    (g : Alone t τ υ) : Alone t σ υ := by
  obtain ⟨n,hn⟩ := g
  exact ⟨n+1,by simpa [Transit.run,replicate_succ,Transit.step,h] using hn⟩

lemma Alone.answer (h : TransitOk σ)
    (hrun : Alone t σ σ') {port dest : Port} (hcall : (σ.place t).call=some (port,dest))
    {circular : Bool} (hret : (σ'.place t).answer=some circular) :
    (circular=true ↔ ReflTransGen (Link σ.ports) dest port) ∧
      σ'.ports=decided σ.ports port dest circular := by
  obtain ⟨n,hn⟩ := hrun
  -- after the decision the answer and the ports stay
  have hkeep : ∀ (n : ℕ) (τ : Transit Port Thread) (b : Bool),(τ.place t).answer=some b →
      τ.run (replicate n (t,.proceed true))=some σ' → b=circular ∧ σ'.ports=τ.ports := by
    intro n
    induction n with
    | zero =>
      intro τ b hb hτ
      cases hτ
      exact ⟨Option.some.inj (hb.symm.trans hret),rfl⟩
    | succ n ih =>
      intro τ b hb hτ
      simp only [replicate_succ,Transit.run,Option.bind_eq_some_iff,Transit.step] at hτ
      obtain ⟨υ,hone,hrest⟩ := hτ
      obtain ⟨hb',hports⟩ := (proceed_proceeds hone).returns hb
      obtain ⟨heq,hsame⟩ := ih υ b hb' hrest
      exact ⟨heq,hsame.trans hports⟩
  induction n generalizing σ with
  | zero =>
    cases hn
    generalize σ'.place t=place at hcall hret
    cases place <;> simp [Place.call,Place.answer] at hcall hret
  | succ n ih =>
    simp only [replicate_succ,Transit.run,Option.bind_eq_some_iff,Transit.step] at hn
    obtain ⟨τ,hone,hrest⟩ := hn
    have hs := proceed_proceeds hone
    rcases hs.decides h hcall with ⟨hcall',hports⟩ | ⟨b,hb,hiff,hports⟩
    · have hτ := ih (hs.ok h) hcall' hrest
      rwa [hports] at hτ
    · obtain ⟨rfl,hsame⟩ := hkeep n τ b hb hrest
      exact ⟨hiff,hsame.trans hports⟩

lemma unlockChain_alone {base : Port} {l : List Port} :
    ∀ {σ : Transit Port Thread} {port : Port},σ.place t=.unlockChain port base →
      Path (Link σ.ports) port base l → ∃ σ',Alone t σ σ' ∧ σ'.place t=.returned false := by
  have hlast : ∀ σ : Transit Port Thread,σ.place t=.unlockChain base base →
      ∃ σ',Alone t σ σ' ∧ σ'.place t=.returned false := by
    intro σ hp
    have hstep : σ.proceed t true=some ((σ.setLock base none).setPlace t (.returned false)) := by
      simp only [Transit.proceed,hp,if_true]
    exact ⟨_,.head hstep (.refl t _),setPlace_place _ _ _⟩
  induction l with
  | nil =>
    intro σ port hp hpath
    cases hpath
    exact hlast σ hp
  | cons x l ih =>
    intro σ port hp hpath
    cases hpath with
    | cons hlink hrest =>
      rename_i next
      by_cases he : x=base
      · exact hlast σ (he▸hp)
      · have hstep : σ.proceed t true =
            some ((σ.setLock x none).setPlace t (.unlockChain next base)) := by
          simp only [Transit.proceed,hp,if_neg he,hlink.2]
        obtain ⟨σ',hrun,hret⟩ := ih (setPlace_place (σ.setLock x none) t _) hrest
        exact ⟨σ',hrun.head hstep,hret⟩

lemma unlockCircular_alone {base : Port} {l : List Port} :
    ∀ {σ : Transit Port Thread} {dest : Port},σ.place t=.unlockCircular (some dest) →
      Path (Link σ.ports) dest base l → (σ.ports base).ipDestination=none →
      ∃ σ',Alone t σ σ' ∧ σ'.place t=.returned true := by
  induction l with
  | nil =>
    intro σ dest hp hpath hbase
    cases hpath
    have hstep : σ.proceed t true =
        some ((σ.setLock base none).setPlace t (.unlockCircular none)) := by
      simp only [Transit.proceed,hp,hbase]
    have hplace := setPlace_place (σ.setLock base none) t (.unlockCircular none)
    have hlast : ((σ.setLock base none).setPlace t (.unlockCircular none)).proceed t true =
        some (((σ.setLock base none).setPlace t (.unlockCircular none)).setPlace t
          (.returned true)) := by
      simp only [Transit.proceed,hplace]
    exact ⟨_,.head hstep (.head hlast (.refl t _)),setPlace_place _ _ _⟩
  | cons x l ih =>
    intro σ dest hp hpath hbase
    cases hpath with
    | cons hlink hrest =>
      rename_i next
      have hstep : σ.proceed t true =
          some ((σ.setLock x none).setPlace t (.unlockCircular (some next))) := by
        simp only [Transit.proceed,hp,hlink.2]
      obtain ⟨σ',hrun,hret⟩ := ih (setPlace_place (σ.setLock x none) t _) hrest hbase
      exact ⟨σ',hrun.head hstep,hret⟩

lemma search_alone {port dest base : Port} {σ : Transit Port Thread}
    (h : TransitOk σ) (hp : σ.place t=.search port dest base)
    (hown : ∀ q,Own t (σ.locks q)) :
    ∃ σ' circular,Alone t σ σ' ∧ σ'.place t=.returned circular := by
  have hwf := h.acyclic.wellFounded h.finite
  generalize hports : σ.ports=ports at hwf
  induction base using hwf.induction generalizing σ with
  | _ base ih =>
    have hplace := h.places t
    rw [hp] at hplace
    obtain ⟨hhand,hne,l,hpath,hlocks⟩ := hplace
    have hl : σ.locks base=none := by
      refine (hown base).resolve_right fun hmine => ?_
      exact hpath.end_notMem h.acyclic ((hlocks base).mp hmine)
    have hown' : ∀ q,Own t ((σ.setLock base (some t)).locks q) := by
      intro q
      by_cases hq : q=base
      · exact .inr (by simp [Transit.setLock,hq])
      · simp only [Transit.setLock,update_of_ne hq]
        exact hown q
    cases hd : (σ.ports base).inTransit with
    | true =>
      obtain ⟨next,hn⟩ : ∃ next,(σ.ports base).ipDestination=some next := by
        simp only [IpcPort.inTransit,Bool.and_eq_true] at hd
        exact Option.isSome_iff_exists.mp hd.2
      have hstep : σ.proceed t true =
          some ((σ.setLock base (some t)).setPlace t (.search port dest next)) := by
        simp only [Transit.proceed,hp,hl,Option.isSome_none,Bool.false_eq_true,if_false,
          Transit.setLock,hd,hn]
      obtain ⟨σ',circular,hrun,hret⟩ := ih next (hports▸⟨hd,hn⟩)
        ((proceed_proceeds hstep).ok h) (setPlace_place _ _ _) hown' hports
      exact ⟨σ',circular,hrun.head hstep,hret⟩
    | false =>
      by_cases he : port=base
      · subst he
        have hstep : σ.proceed t true =
            some ({σ.setLock port (some t) with multipleLock := none}.setPlace t
              (.unlockCircular (some dest))) := by
          simp only [Transit.proceed,hp,hl,Option.isSome_none,Bool.false_eq_true,if_false,
            Transit.setLock,hd,if_true]
        obtain ⟨σ',hrun,hret⟩ := unlockCircular_alone
          (setPlace_place {σ.setLock port (some t) with multipleLock := none} t _) hpath
          (congrArg IpcPort.ipDestination (h.limbo port t hhand))
        exact ⟨σ',true,hrun.head hstep,hret⟩
      · have hstep : σ.proceed t true =
            some ((σ.setLock base (some t)).setPlace t (.lockLast port dest base)) := by
          simp only [Transit.proceed,hp,hl,Option.isSome_none,Bool.false_eq_true,if_false,
            Transit.setLock,hd,if_neg he]
        have hok := (proceed_proceeds hstep).ok h
        have hfree : (σ.setLock base (some t)).locks port=none := by
          refine (hown' port).resolve_right fun hmine => ?_
          simp only [Transit.setLock,update_of_ne he] at hmine
          obtain ⟨d,hlink⟩ := hpath.mem_link port ((hlocks port).mp hmine)
          exact no_link (h.inHand_inTransit hhand) d hlink
        generalize hτ : (σ.setLock base (some t)).setPlace t (.lockLast port dest base)=τ
          at hstep hok
        have hpτ : τ.place t=.lockLast port dest base := hτ▸setPlace_place _ _ _
        have hlτ : τ.locks port=none := hτ▸hfree
        have hlast : τ.proceed t true =
            some (({τ.setLock port (some t) with multipleLock := none}.link port dest).setPlace t
              (.unlockChain port base)) := by
          simp only [Transit.proceed,hpτ,hlτ,Option.isSome_none,Bool.false_eq_true,if_false]
        have hend := ((proceed_proceeds hlast).ok hok).places t
        rw [setPlace_place] at hend
        obtain ⟨l',hpath',-⟩ := hend
        obtain ⟨σ',hrun,hret⟩ := unlockChain_alone (setPlace_place _ _ _) hpath'
        exact ⟨σ',false,(hrun.head hlast).head hstep,hret⟩

lemma call_alone {port dest : Port} {σ : Transit Port Thread} (h : TransitOk σ)
    (hp : σ.place t=.lockPort port dest) (hlocks : ∀ q,σ.locks q=none)
    (hm : σ.multipleLock=none) : ∃ σ' circular,Alone t σ σ' ∧ σ'.place t=.returned circular := by
  have hplace := h.places t
  rw [hp] at hplace
  obtain ⟨hhand,hne,-⟩ := hplace
  have hstep : σ.proceed t true =
      some ((σ.setLock port (some t)).setPlace t (.tryDest port dest)) := by
    simp only [Transit.proceed,hp,hlocks port,Option.isSome_none,Bool.false_eq_true,if_false]
  have hok := (proceed_proceeds hstep).ok h
  have hdest : (σ.setLock port (some t)).locks dest=none := by
    simp [Transit.setLock,update_of_ne hne.symm,hlocks dest]
  generalize hτ : (σ.setLock port (some t)).setPlace t (.tryDest port dest)=τ at hstep hok
  have hpτ : τ.place t=.tryDest port dest := hτ▸setPlace_place _ _ _
  have hdτ : τ.locks dest=none := hτ▸hdest
  cases hd : (τ.ports dest).inTransit with
  | false =>
    have hfast : τ.proceed t true =
        some (((τ.setLock dest (some t)).link port dest).setPlace t (.unlockChain port dest)) := by
      simp [Transit.proceed,hpτ,hdτ,hd]
    have hend := ((proceed_proceeds hfast).ok hok).places t
    rw [setPlace_place] at hend
    obtain ⟨l,hpath,-⟩ := hend
    obtain ⟨σ',hrun,hret⟩ := unlockChain_alone (setPlace_place _ _ _) hpath
    exact ⟨σ',false,(hrun.head hfast).head hstep,hret⟩
  | true =>
    have hslow : τ.proceed t true =
        some ((τ.setLock port none).setPlace t (.multipleLock port dest)) := by
      simp [Transit.proceed,hpτ,hdτ,hd]
    have hok' := (proceed_proceeds hslow).ok hok
    have hfree : ∀ q,(τ.setLock port none).locks q=none := by
      intro q
      rw [←hτ]
      by_cases hq : q=port
      · simp [Transit.setLock,Transit.setPlace,hq]
      · simp [Transit.setLock,Transit.setPlace,hq,hlocks q]
    have hmτ : τ.multipleLock=none := hτ▸hm
    generalize hυ : (τ.setLock port none).setPlace t (.multipleLock port dest)=υ at hslow hok'
    have hpυ : υ.place t=.multipleLock port dest := hυ▸setPlace_place _ _ _
    have hfreeυ : ∀ q,υ.locks q=none := hυ▸hfree
    have hmυ : υ.multipleLock=none := hυ▸hmτ
    have htake : υ.proceed t true =
        some ({υ with multipleLock := some t}.setPlace t (.search port dest dest)) := by
      simp only [Transit.proceed,hpυ,hmυ,Option.isSome_none,Bool.false_eq_true,if_false]
    obtain ⟨σ',circular,hrun,hret⟩ := search_alone ((proceed_proceeds htake).ok hok')
      (setPlace_place _ _ _) fun q => .inl (hfreeυ q)
    exact ⟨σ',circular,((hrun.head htake).head hslow).head hstep,hret⟩

/-- In every interleaving the in-transit ports form no circle. A call decides once: it answers
TRUE, and changes no link, exactly if the links it finds lead from `dest` to `port`, and otherwise
it adds the link from `port` to `dest`; before and after the decision it changes no port. A call
that nobody disturbs returns. -/
theorem checkCircularity_run {name : Port → MachPortName} {receiver : Port → Option Port}
    {as : List (Thread × PortAction Port)} {σ : Transit Port Thread}
    (hr : (Transit.start name receiver).run as=some σ) : Acyclic (Link σ.ports) ∧
    (∀ t port dest σ',σ.step t (.checkCircularity port dest)=some σ' → σ'.ports=σ.ports ∧
      σ'.place t=if port=dest then .returned true else .lockPort port dest) ∧
    (∀ t port dest tryLock σ',(σ.place t).call=some (port,dest) →
      σ.step t (.proceed tryLock)=some σ' →
      ((σ'.place t).call=some (port,dest) ∧ σ'.ports=σ.ports) ∨
      ∃ circular,(σ'.place t).answer=some circular ∧
        (circular=true ↔ ReflTransGen (Link σ.ports) dest port) ∧
        σ'.ports=decided σ.ports port dest circular) ∧
    (∀ t circular tryLock σ',(σ.place t).answer=some circular →
      σ.step t (.proceed tryLock)=some σ' → (σ'.place t).answer=some circular ∧ σ'.ports=σ.ports) ∧
    (∀ t port dest,σ.place t=.lockPort port dest → (∀ q,σ.locks q=none) →
      σ.multipleLock=none → ∃ σ' circular,Alone t σ σ' ∧ σ'.place t=.returned circular ∧
        (circular=true ↔ ReflTransGen (Link σ.ports) dest port) ∧
        σ'.ports=decided σ.ports port dest circular) := by
  have hok := run_ok (start_ok name receiver) hr
  refine ⟨hok.acyclic,fun t port dest σ' hs => ?_,fun t port dest tryLock σ' hcall hs =>
    (proceed_proceeds hs).decides hok hcall,fun t circular tryLock σ' ha hs =>
    (proceed_proceeds hs).returns ha,fun t port dest hp hlocks hm => ?_⟩
  · simp only [Transit.step] at hs
    split at hs
    · split at hs
      · cases hs
        exact ⟨rfl,setPlace_place _ _ _⟩
      · cases hs
    · cases hs
  · obtain ⟨σ',circular,hrun,hret⟩ := call_alone hok hp hlocks hm
    obtain ⟨hiff,hports⟩ := hrun.answer hok (by rw [hp]; rfl) (by rw [hret]; rfl)
    exact ⟨σ',circular,hrun,hret,hiff,hports⟩

/-- Two threads send the rights of ports 1 and 2 to each other. The first finds port 2 locked and
searches; meanwhile the second links port 2 to port 1. -/
def crossing : List (ℕ × PortAction ℕ) :=
  [(0,.copyin 1),(1,.copyin 2),(0,.checkCircularity 1 2),(1,.checkCircularity 2 1),
    (0,.proceed true),(1,.proceed true),(0,.proceed true),(1,.proceed true),(1,.proceed true),
    (1,.proceed true),(0,.proceed true),(0,.proceed true)]

/-- The search of the first thread is about to find its own port, and answers TRUE. -/
theorem checkCircularity_run_crossing :
    ∃ (σ σ' : Transit ℕ ℕ),(Transit.start (fun _ => 7) fun _ => none).run crossing=some σ ∧
      (σ.place 1).answer=some false ∧ σ.step 0 (.proceed true)=some σ' ∧
      (σ'.place 0).answer=some true ∧ Acyclic (Link σ.ports) ∧ ReflTransGen (Link σ.ports) 2 1 := by
  have hrun : ∃ (σ σ' : Transit ℕ ℕ),
      (Transit.start (fun _ => 7) fun _ => none).run crossing=some σ ∧
      (σ.place 1).answer=some false ∧ (σ.place 0).call=some (1,2) ∧
      σ.step 0 (.proceed true)=some σ' ∧ (σ'.place 0).answer=some true :=
    ⟨_,_,rfl,by decide,by decide,rfl,by decide⟩
  obtain ⟨σ,σ',hr,hfirst,hcall,hstep,hanswer⟩ := hrun
  obtain ⟨hacyclic,-,hdecides,-⟩ := checkCircularity_run hr
  refine ⟨σ,σ',hr,hfirst,hstep,hanswer,hacyclic,?_⟩
  rcases hdecides 0 1 2 true σ' hcall hstep with ⟨hcall',-⟩ | ⟨circular,hc,hiff,-⟩
  · generalize σ'.place 0=place at hanswer hcall'
    cases place <;> simp [Place.call,Place.answer] at hanswer hcall'
  · obtain rfl : circular=true := Option.some.inj (hc.symm.trans hanswer)
    exact hiff.mp rfl

end Answers

end Darwin.Ipc
