import Xv6Lottery.Bio.Invariant

/-!
Each step of a process in `bio.c` and `iderw` keeps the invariant of the cache.

* `Inv.lock`, `Inv.use`, `Inv.give`, `Inv.written`, `Inv.release`: the steps on a buffer that the
  process locks, has locked or gives back.
* `Inv.found`, `Inv.drop`, `Inv.recycled`: the steps that count references. The list of buffers
  matters here: `bget` finds the buffer of a block if there is one, and what it recycles is clean.
* `Inv.enqueue`: a request for the drive.
* `Inv.moves`: all of them, with their events as steps of the store.
-/

namespace Xv6Lottery.Bio

open Library Sections

variable {ι β : Type} {n : ℕ} [DecidableEq ι]

namespace Inv

variable {A : Store ι β} {s s' : Cache ι β n} {p : ι → Place n} {b : Fin n} {i : ι}
  {dev blockno : ℕ}

/-! ### Buffers that are locked -/

/-- `acquiresleep` in `bget` -/
lemma lock (h : Inv A s p) {dev blockno : ℕ} (hp : p i = .lockBuf b dev blockno)
    (hb : (s.buf b).lock = none) :
    Inv A (s.setBuf b { s.buf b with lock := some i })
      (Function.update p i (.check b dev blockno)) := by
  have hpends : (p i).Pends b := by
    rw [hp]
    exact rfl
  have hold := h.bufs b
  have hf := hold.not_fresh_of_pends hpends
  have hnone : ∀ j, (s.buf b).lock ≠ some j := by simp [hb]
  have hq : b ∉ s.queue := h.not_queued fun j hj => absurd hj (hnone j)
  have hplace := h.places i
  rw [hp] at hplace
  refine h.change (fun j hj => absurd hj (hnone j)) rfl hf hq (by simp [hp])
    (fun c hc => by simp [hp, Place.Pends, hc.symm])
    (fun c hc => by simp [hp, Place.Reads, hc.symm]) (by simp [hp, Place.Writes])
    (fun _ _ => ⟨rfl, rfl, rfl⟩) ?_ ?_
    (fun j hj => absurd (h.lock_of_owner hf hj).1 (hnone j)) (h.contents_eq hf) fun _ =>
      h.durable_eq hf fun j hj => hnone j ((h.places j).lock_of_writes hj)
  · rw [PlaceOk, Cache.setBuf_buf_self]
    exact ⟨rfl, hplace⟩
  · obtain ⟨P, hmem, hP⟩ := h.refs_erase (t := .check b dev blockno) hpends id
    rw [hb] at hP
    refine ⟨⟨P, hmem, hP⟩, fun hbq => absurd hbq hq, hold.exist, hold.dirty, fun j hj hr => ?_,
      hold.kept, fun _ => hold.clean fun j hj => absurd hj (hnone j)⟩
    obtain rfl : i = j := Option.some.inj hj
    simp [Place.Reads] at hr

/-- A process changes the data or the flag of a buffer that it has got. -/
lemma use (h : Inv A s p) (hp : p i = .user) (hl : (s.buf b).lock = some i) (data : β)
    {dirty : Bool} {t : Place n} (ht : t = .user ∨ t = .iderw b .bwrite ∧ dirty = true) :
    Inv { A with contents := Function.update A.contents (s.buf b).key data }
      (s.setBuf b { s.buf b with data := data, dirty := dirty }) (Function.update p i t) := by
  have hold := h.bufs b
  have hf := hold.not_fresh_of_lock hl
  have hq := h.not_queued_of_lock hl (by simp [hp])
  obtain ⟨howner, hv⟩ := hold.given i hl (by simp [hp, Place.Reads])
  have hpend : ∀ c, t.Pends c ↔ (p i).Pends c := by
    rcases ht with rfl | ⟨rfl, -⟩ <;> simp [hp, Place.Pends]
  have hread : ∀ c, t.Reads c ↔ (p i).Reads c := by
    rcases ht with rfl | ⟨rfl, -⟩ <;> simp [hp, Place.Reads]
  have hlock : ∀ j, (s.buf b).lock = some j → j = i := fun j hj =>
    Option.some.inj (hj.symm.trans hl)
  refine h.change hlock rfl hf hq (by simp [hp]) (fun c _ => hpend c) (fun c _ => hread c)
    (by simp [hp, Place.Writes]) (fun k hk => ⟨rfl, Function.update_of_ne hk .., rfl⟩) ?_ ?_
    (fun j hj => ?_) (fun hv' => by simp [hv] at hv')
    fun _ => h.durable_of_lock hl (by simp [hp, Place.Writes])
  · rcases ht with rfl | ⟨rfl, rfl⟩
    · trivial
    · rw [PlaceOk, Cache.setBuf_buf_self]
      exact ⟨hl, hv, rfl⟩
  · refine ⟨h.refs_update (hpend b), fun hbq => absurd hbq hq, hold.exist, fun _ => hv,
      fun j hj _ => ?_, fun _ => (Function.update_self (s.buf b).key data A.contents).symm,
      fun hr => ?_⟩
    · obtain rfl := hlock j hj
      exact ⟨howner, hv⟩
    · have := hr i hl
      rw [Function.update_self, hread] at this
      simp [hp, Place.Reads] at this
  · obtain rfl : i = j := Option.some.inj (howner.symm.trans hj)
    refine ⟨hl, ?_⟩
    rw [Function.update_self, hread]
    simp [hp, Place.Reads]

/-- A flag changes, but not the data. -/
lemma flag (h : Inv A s p) (hp : p i = .user) (hl : (s.buf b).lock = some i) {t : Place n}
    (ht : t = .user ∨ t = .iderw b .bwrite) :
    Inv A (s.setBuf b { s.buf b with dirty := true }) (Function.update p i t) := by
  have hv := ((h.bufs b).given i hl (by simp [hp, Place.Reads])).2
  have hsame : Function.update A.contents (s.buf b).key (s.buf b).data = A.contents := by
    rw [(h.bufs b).kept hv, Function.update_eq_self]
  have huse := h.use hp hl (s.buf b).data (ht.imp_right fun ht => ⟨ht, rfl⟩)
  rwa [hsame] at huse

/-- `bread` returns a buffer that is valid. -/
lemma give (h : Inv A s p) (hl : (s.buf b).lock = some i) (hr : (p i).Reads b)
    (hv : (s.buf b).valid = true) (hq : b ∉ s.queue) (hk : (s.buf b).key = (dev, blockno)) :
    ∃ A', StoreStep A (.bread i (dev, blockno) (s.buf b).data) A' ∧
      Inv A' s (Function.update p i .user) := by
  have hold := h.bufs b
  have hf := hold.not_fresh_of_lock hl
  obtain ⟨hreads, hpends, hwrites⟩ := hr.unique
  have hlock : ∀ j, (s.buf b).lock = some j → j = i := fun j hj =>
    Option.some.inj (hj.symm.trans hl)
  have hfree : A.owner (s.buf b).key = none := by
    -- whoever has the block has locked the buffer, and is not in `bread`
    by_contra hne
    obtain ⟨j, hj⟩ := Option.ne_none_iff_exists'.mp hne
    obtain ⟨hj, hjr⟩ := h.lock_of_owner hf hj
    obtain rfl := hlock j hj
    exact hjr hr
  rw [hold.kept hv, ← hk]
  refine ⟨_, .bread hfree, ?_⟩
  refine Eq.mp (congrArg (Inv _ · _) (Cache.setBuf_self (b := b))) ?_
  refine h.change hlock rfl hf hq (fun c r hc hpi => ?_)
    (fun c _ => ⟨False.elim, fun hcp => absurd hcp (hpends c)⟩)
    (fun c hc => ⟨False.elim, fun hcr => absurd (hreads c hcr) hc⟩)
    (fun c _ hc => absurd hc (hwrites c))
    (fun k hne => ⟨Function.update_of_ne hne .., rfl, rfl⟩) trivial ?_ (fun j hj => ?_)
    (fun hv' => by simp [hv] at hv') fun _ => h.durable_of_lock hl (hwrites b)
  · rw [hpi] at hr
    cases r with
    | bread dev' blockno' =>
        obtain rfl : c = b := hr
        exact hq hc
    | bwrite => exact hr
  · refine ⟨h.refs_update ⟨False.elim, fun hbp => absurd hbp (hpends b)⟩, fun hbq => absurd hbq hq,
      hold.exist, hold.dirty, fun j hj _ => ?_, hold.kept, fun hall => ?_⟩
    · obtain rfl := hlock j hj
      exact ⟨Function.update_self .., hv⟩
    · have := hall i hl
      rw [Function.update_self] at this
      exact this.elim
  · obtain rfl : i = j := by simpa using hj
    rw [Function.update_self]
    exact ⟨hl, id⟩

/-- `bwrite` returns. -/
lemma written (h : Inv A s p) (hp : p i = .await b .bwrite) (hv : (s.buf b).valid = true)
    (hd : (s.buf b).dirty = false) :
    ∃ A', StoreStep A (.bwrite i (s.buf b).key (s.buf b).data) A' ∧
      Inv A' s (Function.update p i .user) := by
  have hplace := h.places i
  rw [hp] at hplace
  obtain ⟨hl, ⟨-, -, hd'⟩ | ⟨hq, -, -, -, hdata⟩⟩ := hplace
  · simp [hd] at hd'
  have hold := h.bufs b
  have hf := hold.not_fresh_of_lock hl
  have hlock : ∀ j, (s.buf b).lock = some j → j = i := fun j hj =>
    Option.some.inj (hj.symm.trans hl)
  obtain ⟨howner, -⟩ := hold.given i hl (by simp [hp, Place.Reads])
  rw [hold.kept hv]
  refine ⟨_, .bwrite howner, ?_⟩
  refine Eq.mp (congrArg (Inv _ · _) (Cache.setBuf_self (b := b))) ?_
  refine h.change hlock rfl hf hq (fun c r hc hpi => ?_) (fun c _ => by simp [hp, Place.Pends])
    (fun c _ => by simp [hp, Place.Reads]) (fun c hc hw => ?_)
    (fun k hne => ⟨rfl, rfl, Function.update_of_ne hne ..⟩) trivial ?_ (fun j hj => ?_)
    (fun hv' => by simp [hv] at hv') fun _ => ?_
  · obtain ⟨rfl, -⟩ := Place.await.inj (hp.symm.trans hpi)
    exact hq hc
  · rw [hp] at hw
    exact absurd hw.symm hc
  · refine ⟨h.refs_update (by simp [hp, Place.Pends]), fun hbq => absurd hbq hq, hold.exist,
      hold.dirty, fun j hj _ => ?_, hold.kept, fun hall => ?_⟩
    · obtain rfl := hlock j hj
      exact ⟨howner, hv⟩
    · have := hall i hl
      rw [Function.update_self] at this
      exact this.elim
  · obtain rfl : i = j := Option.some.inj (howner.symm.trans hj)
    rw [Function.update_self]
    exact ⟨hl, id⟩
  · calc s.disk (s.buf b).key = A.contents (s.buf b).key := hdata.symm.trans (hold.kept hv)
      _ = _ := (Function.update_self (s.buf b).key _ A.durable).symm

/-- `releasesleep` in `brelse` -/
lemma release (h : Inv A s p) (hp : p i = .release b) :
    ∃ A', StoreStep A (.brelse i (s.buf b).key (s.buf b).data) A' ∧
      Inv A' (s.setBuf b { s.buf b with lock := none }) (Function.update p i (.drop b)) := by
  have hplace := h.places i
  rw [hp] at hplace
  obtain ⟨hl, hclean⟩ := hplace
  have hold := h.bufs b
  have hf := hold.not_fresh_of_lock hl
  have hq := h.not_queued_of_lock hl (by simp [hp])
  obtain ⟨howner, hv⟩ := hold.given i hl (by simp [hp, Place.Reads])
  rw [hold.kept hv]
  refine ⟨_, .brelse howner, ?_⟩
  refine h.change (fun j hj => Option.some.inj (hj.symm.trans hl)) rfl hf hq (by simp [hp])
    (fun c hc => by simp [hp, Place.Pends, hc.symm]) (fun c _ => by simp [hp, Place.Reads])
    (by simp [hp, Place.Writes]) (fun k hne => ⟨Function.update_of_ne hne .., rfl, rfl⟩) trivial ?_
    (fun j hj => ?_) (fun hv' => by simp [hv] at hv')
    fun _ => h.durable_of_lock hl (by simp [hp, Place.Writes])
  · obtain ⟨P, hmem, hP⟩ := h.refs_insert (i := i) (t := .drop b) (by simp [hp, Place.Pends]) rfl
    rw [hl] at hP
    exact ⟨⟨P, hmem, Nat.succ.inj hP⟩, fun hbq => absurd hbq hq, hold.exist, hold.dirty,
      fun j hj => (by cases hj), hold.kept, fun _ _ => hclean⟩
  · have hnone : Function.update A.owner (s.buf b).key none (s.buf b).key = none :=
      Function.update_self ..
    cases hnone.symm.trans hj

/-! ### References -/

/-- `bget` finds a buffer for the block. -/
lemma found (h : Inv A s p) (hp : p i = .bget dev blockno)
    (hb : s.lookup (dev, blockno) = some (some b)) :
    Inv A (s.addRef b) (Function.update p i (.lockBuf b dev blockno)) := by
  obtain ⟨l, hl, hmem, hpair⟩ := h.list
  rw [Cache.lookup_eq hl, Option.some.injEq, List.find?_eq_some_iff_append] at hb
  obtain ⟨hkey, l₁, l₂, rfl, hne⟩ := hb
  have hkey : (s.buf b).key = (dev, blockno) := by simpa using hkey
  -- the buffers before it are for other blocks, and those behind it are fresh already
  have hlist : ListOk (s.addRef b) := .replace hl hmem hpair
    (fun c hc hk => absurd (hk.trans hkey) (by simpa using hne c hc))
    (pairwise_middle_iff.mp hpair).2.2
  refine h.recount s.links hlist hkey (fun c hc => by simp [hp, Place.Pends, hc.symm])
    (fun c => by simp [hp, Place.Reads]) (by simp [hp, Place.Writes]) (by simp [hp]) ?_
  exact h.refs_insert (by simp [hp, Place.Pends]) rfl

/-- The end of `brelse`: the buffer goes to the front of the list if nobody waits for it. -/
lemma drop (h : Inv A s p) (hp : p i = .drop b) :
    Inv A (s.unref b) (Function.update p i .user) := by
  have hpends : (p i).Pends b := by
    rw [hp]
    exact rfl
  have hf := (h.bufs b).not_fresh_of_pends hpends
  have hrefs : ∃ P : Finset ι, (∀ j, j ∈ P ↔ (Function.update p i .user j).Pends b) ∧
      (s.buf b).refcnt - 1 = P.card + (s.buf b).lock.elim 0 fun _ => 1 := by
    obtain ⟨P, hmem, hP⟩ := h.refs_erase (t := .user) hpends id
    exact ⟨P, hmem, by omega⟩
  have hrecount : ∀ {links}, ListOk { s.setBuf b
      { s.buf b with refcnt := (s.buf b).refcnt - 1 } with links := links } → _ := fun hlist =>
    h.recount (t := .user) _ hlist trivial
      (fun c hc => by simp [hp, Place.Pends, hc.symm]) (fun c => by simp [hp, Place.Reads])
      (by simp [hp, Place.Writes]) (by simp [hp]) hrefs
  unfold Cache.unref
  split_ifs with h0
  · refine hrecount ?_
    obtain ⟨l, hl, hmem, hpair⟩ := h.list
    obtain ⟨l₁, l₂, rfl⟩ := List.append_of_mem (hmem b)
    obtain ⟨hrest, h₁, h₂⟩ := pairwise_middle_iff.mp hpair
    have hb : b ∉ l₁ ++ l₂ := (List.nodup_middle.mp hl.nodup).notMem
    refine ⟨b :: (l₁ ++ l₂), hl.unlink.pushFront hb, fun c => ?_,
      List.pairwise_cons.mpr ⟨fun c hc hk => ?_, pairwise_setBuf hb hrest⟩⟩
    · simpa [or_left_comm] using hmem c
    · -- a buffer that was in front of it is for another block, since it was not fresh
      have hcb : c ≠ b := ne_of_mem_of_not_mem hc hb
      rw [show Cache.buf _ b = _ from Cache.setBuf_buf_self,
        show Cache.buf _ c = _ from Cache.setBuf_buf_ne hcb] at hk
      rw [show Cache.buf _ c = _ from Cache.setBuf_buf_ne hcb]
      rcases List.mem_append.mp hc with hc | hc
      · exact absurd (h₁ c hc hk.symm) hf
      · exact h₂ c hc hk
  · exact hrecount (h.list.setBuf rfl hf)

/-- `bget` recycles a buffer that nobody uses. -/
lemma recycled (h : Inv A s p) (hp : p i = .bget dev blockno)
    (hk : s.lookup (dev, blockno) = some none) (hb : s.victim = some (some b)) :
    Inv A (s.recycle b (dev, blockno)) (Function.update p i (.lockBuf b dev blockno)) := by
  obtain ⟨l, hl, hmem, hpair⟩ := h.list
  have hkey : ∀ c, (s.buf c).key ≠ (dev, blockno) := by
    rw [Cache.lookup_eq hl, Option.some.injEq, List.find?_eq_none] at hk
    intro c
    simpa using hk c (hmem c)
  obtain ⟨h0, hclean⟩ : (s.buf b).refcnt = 0 ∧ (s.buf b).dirty = false := by
    rw [Cache.victim_eq hl, Option.some.injEq] at hb
    simpa using List.find?_some hb
  have hold := h.bufs b
  obtain ⟨hlock, hpends⟩ := hold.refcnt_eq_zero_iff.mp h0
  have hnone : ∀ j, (s.buf b).lock ≠ some j := by simp [hlock]
  have hq : b ∉ s.queue := h.not_queued fun j hj => absurd hj (hnone j)
  have hself : (s.recycle b (dev, blockno)).buf b = _ := Cache.setBuf_buf_self
  have hbuf : ∀ c, c ≠ b → (s.recycle b (dev, blockno)).buf c = s.buf c :=
    fun c hc => Cache.setBuf_buf_ne hc
  have hne : ∀ {c j}, (s.buf c).lock = some j → c ≠ b := by
    rintro c j hc rfl
    exact hnone j hc
  have hplace := h.places i
  rw [hp] at hplace
  obtain ⟨l₁, l₂, rfl⟩ := List.append_of_mem (hmem b)
  refine ⟨.replace hl hmem hpair (fun c _ hc => absurd hc (hkey c))
    fun c _ hc => absurd hc.symm (hkey c), fun c => ?_, fun j => ?_, h.nodup, ?_, ?_, ?_, ?_⟩
  · rcases eq_or_ne c b with rfl | hc
    · rw [hself]
      refine ⟨⟨{i}, fun j => ?_, ?_⟩, fun hcq => absurd hcq hq, hplace, ?_, ?_, ?_, ?_⟩
      · rcases eq_or_ne j i with rfl | hj
        · simp [Place.Pends]
        · simpa [hj] using hpends j
      · simp [hlock]
      · simp
      · exact fun j hj => absurd hj (hnone j)
      · simp
      · simp
    · rw [hbuf c hc]
      exact (h.bufs c).frame id rfl (update_iff (by simp [hp, Place.Pends, hc.symm]))
        (fun j _ => update_iff (by simp [hp, Place.Reads]) j)
        (fun j r _ => update_imp (Q := (· = .await c r)) (by simp [hp])) fun _ => ⟨rfl, rfl, rfl⟩
  · rcases eq_or_ne j i with rfl | hj
    · rw [Function.update_self, PlaceOk, hself]
      rfl
    · rw [Function.update_of_ne hj]
      refine (h.places j).frame rfl (fun c hc => ?_) fun c hc =>
        ⟨⟨_, hbuf c (hne hc)⟩, Iff.rfl, rfl⟩
      rw [hbuf c (by rintro rfl; exact hpends j hc)]
  · exact h.drive.frame rfl rfl fun c hc => ⟨⟨_, hbuf c (ne_of_mem_of_not_mem hc hq)⟩, rfl⟩
  · intro k j hk
    obtain ⟨c, hc, hcl, hr⟩ := h.owned k j hk
    exact ⟨c, by rw [hbuf c (hne hcl), hc], by rw [hbuf c (hne hcl), hcl],
      fun hr' => hr ((update_iff (by simp [hp, Place.Reads]) j).mp hr')⟩
  · -- what the buffer held is on the disk
    intro k hk
    by_cases hkb : (s.buf b).key = k ∧ (s.buf b).valid = true
    · obtain ⟨rfl, hv⟩ := hkb
      obtain hd | hd := hold.clean (fun j hj => absurd hj (hnone j)) hv
      · simp [hclean] at hd
      · exact (hold.kept hv).symm.trans hd
    · refine h.absent k fun c hc => ?_
      rcases eq_or_ne c b with rfl | hcb
      · simpa [hc] using hkb
      · rw [← hbuf c hcb]
        exact hk c (by rw [hbuf c hcb, hc])
  · intro k hk
    refine h.durable k fun j c hw hc => ?_
    have hcb := hne ((h.places j).lock_of_writes hw)
    exact hk j c (update_imp (by simp [hp, Place.Writes]) hw) (by rw [hbuf c hcb, hc])

/-! ### The queue -/

/-- `iderw` puts its request into the queue, and starts the drive if the queue was empty. -/
lemma enqueue (h : Inv A s p) {r : Caller} {d : Drive β} (hp : p i = .enqueue b r)
    (hd : s.queue = [] ∧ d = .busy (s.buf b).command ∨ s.queue ≠ [] ∧ d = s.drive) :
    Inv A { s with queue := s.queue ++ [b], drive := d } (Function.update p i (.await b r)) := by
  have hplace := h.places i
  rw [hp] at hplace
  obtain ⟨hl, hasks⟩ := hplace
  have hq := h.not_queued_of_lock hl (by simp [hp])
  have hpend : ∀ c, (Place.await b r).Pends c ↔ (p i).Pends c := by simp [hp, Place.Pends]
  have hread : ∀ c, (Place.await b r).Reads c ↔ (p i).Reads c := by
    cases r <;> simp [hp, Place.Reads]
  have hwrite : ∀ c, (p i).Writes c → (Place.await b r).Writes c := by
    cases r <;> simp [hp, Place.Writes]
  refine ⟨h.list, fun c => ?_, fun j => ?_, ?_, ?_, fun k j hk => ?_, h.absent, fun k hk => ?_⟩
  · rcases eq_or_ne c b with rfl | hc
    · have hold := h.bufs c
      exact ⟨h.refs_update (hpend c), fun _ => ⟨i, r, hl, Function.update_self ..⟩, hold.exist,
        hold.dirty, fun j hj hr => hold.given j hj fun hr' => hr ((update_iff (hread c) j).mpr hr'),
        hold.kept, fun hr => hold.clean fun j hj => (update_iff (hread c) j).mp (hr j hj)⟩
    · exact (h.bufs c).frame (by simp [hc]) rfl (update_iff (hpend c))
        (fun j _ => update_iff (hread c) j)
        (fun j u _ => update_imp (Q := (· = .await c u)) (by simp [hp])) fun _ => ⟨rfl, rfl, rfl⟩
  · rcases eq_or_ne j i with rfl | hj
    · rw [Function.update_self]
      exact ⟨hl, Or.inl ⟨by simp, hasks⟩⟩
    · rw [Function.update_of_ne hj]
      refine (h.places j).frame rfl (fun _ _ => rfl) fun c hc => ⟨⟨_, rfl⟩, ?_, rfl⟩
      have hcb : c ≠ b := by
        rintro rfl
        exact hj (Option.some.inj (hc.symm.trans hl))
      simp [hcb]
  · simpa using h.nodup.concat hq
  · have hdrive := h.drive
    obtain ⟨hnil, rfl⟩ | ⟨hne, rfl⟩ := hd
    · simp only [DriveOk, hnil, List.nil_append]
      exact Or.inl rfl
    · obtain ⟨c, q, hcq⟩ := List.exists_cons_of_ne_nil hne
      simp only [DriveOk, hcq, List.cons_append] at hdrive ⊢
      exact hdrive
  · obtain ⟨c, hc, hcl, hr⟩ := h.owned k j hk
    exact ⟨c, hc, hcl, fun hr' => hr ((update_iff (hread c) j).mp hr')⟩
  · exact h.durable k fun j c hw hc => hk j c (update_imp (hwrite c) hw) hc

/-! ### The steps of a process -/

variable {S : Sys ι β n} {k : BioCall β n} {t : Place n} {cs : List (Chan n)}
  {e : Option (BioEvent ι β)}

omit [DecidableEq ι] in
/-- No check of the code fails, other than the one of `bget`. -/
lemma not_refuses (h : Inv A S.shared S.place) (hok : Careful S (.run i k)) :
    ¬ Refuses i S.shared k (S.place i) := by
  obtain ⟨t, hp⟩ : ∃ t, S.place i = t := ⟨_, rfl⟩
  have hplace := h.places i
  rw [hp] at hplace ⊢
  intro hr
  cases hr with
  | bwrite hl => exact hl hok
  | brelse hl => exact hl hok.1
  | unlocked hl => exact hl hplace.1
  | @nothing b r hn =>
      obtain ⟨-, hasks⟩ := hplace
      cases r with
      | bread dev blockno => simp [hasks.2.1] at hn
      | bwrite => simp [hasks.2] at hn
  | @absent b r ha =>
      obtain h0 | ⟨-, h1⟩ := (h.bufs b).exist.1
      · exact ha.1 h0
      · simp [ha.2] at h1
  | @blockno b r hb => exact absurd (h.bufs b).exist.2 (not_lt.mpr hb)

/-- A step of a process keeps the invariant, and its event is a step of the store. -/
lemma moves (h : Inv A S.shared S.place) (hok : Careful S (.run i k))
    (hm : Moves i S.shared k (S.place i) s' t cs e) :
    ∃ A', Explains StoreStep A e A' ∧ Inv A' s' (Function.update S.place i t) := by
  obtain ⟨t₀, hp⟩ : ∃ t₀, S.place i = t₀ := ⟨_, rfl⟩
  have hno := h.not_refuses hok
  have hplace := h.places i
  rw [hp] at hm hno hplace
  cases hm with
  | bread =>
      exact ⟨A, rfl, h.moved hok (by simp [hp, Place.Pends]) (by simp [hp, Place.Reads])
        (by simp [hp, Place.Writes]) (by simp [hp])⟩
  | modify =>
      exact ⟨_, .modify ((h.bufs _).given i hok (by simp [hp, Place.Reads])).1,
        h.use hp hok _ (Or.inl rfl)⟩
  | mark => exact ⟨A, rfl, h.flag hp hok (Or.inl rfl)⟩
  | bwrite hl => exact ⟨A, rfl, h.flag hp hl (Or.inr rfl)⟩
  | brelse hl =>
      exact ⟨A, rfl, h.moved ⟨hl, hok.2⟩ (by simp [hp, Place.Pends]) (by simp [hp, Place.Reads])
        (by simp [hp, Place.Writes]) (by simp [hp])⟩
  | found hb => exact ⟨A, rfl, h.found hp hb⟩
  | recycled hk hb => exact ⟨A, rfl, h.recycled hp hk hb⟩
  | full hk hb =>
      exact ⟨A, .full, h.moved trivial (by simp [hp, Place.Pends]) (by simp [hp, Place.Reads])
        (by simp [hp, Place.Writes]) (by simp [hp])⟩
  | lock hb => exact ⟨A, rfl, h.lock hp hb⟩
  | cached hv =>
      exact h.give hplace.1 (by simp [hp, Place.Reads]) hv
        (h.not_queued_of_lock hplace.1 (by simp [hp])) hplace.2
  | @fetch b dev blockno hv =>
      have hclean : (S.shared.buf b).dirty = false := by
        by_contra hd
        simp [(h.bufs b).dirty (by simpa using hd)] at hv
      exact ⟨A, rfl, h.moved ⟨hplace.1, hplace.2, hv, hclean⟩ (by simp [hp, Place.Pends])
        (by simp [hp, Place.Reads]) (by simp [hp, Place.Writes]) (by simp [hp])⟩
  | @checked b r hl =>
      refine ⟨A, rfl, h.moved hplace (by simp [hp, Place.Pends]) ?_ ?_ (by simp [hp])⟩ <;>
        cases r <;> simp [hp, Place.Reads, Place.Writes]
  | @start b r hq hd =>
      have hb := h.not_queued_of_lock hplace.1 (by simp [hp])
      refine ⟨A, rfl, h.enqueue hp (Or.inl ⟨?_, rfl⟩)⟩
      cases hqs : S.shared.queue with
      | nil => rfl
      | cons c q =>
          obtain rfl : c = b := by simpa [hqs] using hq
          simp [hqs] at hb
  | @enqueue b r hq =>
      refine ⟨A, rfl, h.enqueue hp (Or.inr ⟨?_, rfl⟩)⟩
      rintro hqs
      simp [hqs] at hq
  | fetched hv =>
      obtain ⟨hl, ⟨-, -, hv', -⟩ | ⟨hq, hk, -⟩⟩ := hplace
      · simp [hv'] at hv
      · exact h.give hl (by simp [hp, Place.Reads]) hv.1 hq hk
  | written hv => exact h.written hp hv.1 hv.2
  | release => exact h.release hp
  | drop => exact ⟨A, rfl, h.drop hp⟩
  | refused hr => exact absurd hr hno

end Inv

end Xv6Lottery.Bio
