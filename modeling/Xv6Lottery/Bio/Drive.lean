import Xv6Lottery.Bio.Invariant

/-!
The drive and its interrupts.

* `Inv.complete_eq`, `Inv.ideintr_eq`: what the drive and `ideintr` do, from a state with the
  invariant: the drive reads or writes the sector of the first buffer in the queue, and the
  interrupt takes this buffer out and starts the next command.
* `Inv.complete`, `Inv.ideintr`: the invariant is kept.
-/

namespace Xv6Lottery.Bio

open Library

variable {ι β : Type} {n : ℕ} {A : Store ι β} {s s' : Cache ι β n} {p : ι → Place n} {b : Fin n}

namespace Inv

/-- The drive works on the first request. -/
lemma serves (h : Inv A s p) {q : List (Fin n)} (hq : s.queue = b :: q) : Serves s b := by
  have hd := h.drive
  rwa [DriveOk, hq] at hd

/-- A buffer in the queue, and the process that waits for it. -/
lemma waits (h : Inv A s p) (hb : b ∈ s.queue) :
    ∃ j r, (s.buf b).lock = some j ∧ p j = .await b r ∧ r.Asks (s.buf b) := by
  obtain ⟨j, r, hl, hp⟩ := (h.bufs b).queued hb
  have hplace := h.places j
  rw [hp] at hplace
  obtain ⟨-, ⟨-, hasks⟩ | ⟨hno, -⟩⟩ := hplace
  · exact ⟨j, r, hl, hp, hasks⟩
  · exact absurd hb hno

/-- The drive reads a sector, or writes it. -/
lemma complete_eq (h : Inv A s p) {q : List (Fin n)} {c : Command β} (hq : s.queue = b :: q)
    (hd : s.drive = .busy c) :
    s.complete false = some
      (if (s.buf b).dirty then
        { s with
          drive := .done none, disk := Function.update s.disk (s.buf b).key (s.buf b).data }
      else { s with drive := .done (some (s.disk (s.buf b).key)) }) := by
  obtain hserve | ⟨r, hserve, -⟩ := h.serves hq
  · obtain rfl : c = (s.buf b).command := Drive.busy.inj (hd.symm.trans hserve)
    rw [Cache.complete, hd, Buf.command_eq (h.bufs b).exist]
    cases (s.buf b).dirty <;> rfl
  · rw [hd] at hserve
    cases hserve

/-- The drive has read a sector. -/
lemma completed_read (h : Inv A s p) {q : List (Fin n)} (hq : s.queue = b :: q)
    (hd : (s.buf b).dirty = false) :
    Inv A { s with drive := .done (some (s.disk (s.buf b).key)) } p where
  list := h.list
  bufs c := (h.bufs c).frame id rfl (fun _ => Iff.rfl) (fun _ _ => Iff.rfl) (fun _ _ _ => id)
    fun _ => ⟨rfl, rfl, rfl⟩
  places j := (h.places j).frame rfl (fun _ _ => rfl) fun c _ => ⟨⟨_, rfl⟩, Iff.rfl, rfl⟩
  nodup := h.nodup
  drive := by
    rw [DriveOk, hq]
    exact Or.inr ⟨_, rfl, by simp [hd]⟩
  owned := h.owned
  absent := h.absent
  durable := h.durable

/-- The drive has written a sector. Its process is still in `bwrite`. -/
lemma completed_write (h : Inv A s p) {q : List (Fin n)} (hq : s.queue = b :: q)
    (hd : (s.buf b).dirty = true) :
    Inv A { s with
      drive := .done none, disk := Function.update s.disk (s.buf b).key (s.buf b).data } p := by
  obtain ⟨i, r, hl, hp, hasks⟩ := h.waits (b := b) (by simp [hq])
  obtain rfl : r = .bwrite := by
    cases r with
    | bread dev blockno => simp [Caller.Asks, hd] at hasks
    | bwrite => rfl
  have hf := (h.bufs b).not_fresh_of_lock hl
  have hdisk : ∀ k ≠ (s.buf b).key,
      Function.update s.disk (s.buf b).key (s.buf b).data k = s.disk k :=
    fun k hk => Function.update_of_ne hk ..
  have hkey : ∀ {c}, c ≠ b → ¬ (s.buf c).Fresh → (s.buf c).key ≠ (s.buf b).key :=
    fun hc hcf hk => hc (h.unique hk hcf hf)
  refine ⟨h.list, fun c => ?_, fun j => ?_, h.nodup, ?_, h.owned, fun k hk => ?_, fun k hk => ?_⟩
  · rcases eq_or_ne c b with rfl | hc
    · have hold := h.bufs c
      refine ⟨hold.refs, hold.queued, hold.exist, hold.dirty, hold.given, hold.kept,
        fun hr => ?_⟩
      have := hr i hl
      simp [hp, Place.Reads] at this
    · exact (h.bufs c).frame id rfl (fun _ => Iff.rfl) (fun _ _ => Iff.rfl) (fun _ _ _ => id)
        fun hcf => ⟨rfl, rfl, hdisk _ (hkey hc hcf)⟩
  · rcases eq_or_ne j i with rfl | hj
    · rw [hp]
      exact ⟨hl, Or.inl ⟨by simp [hq], hasks⟩⟩
    · refine (h.places j).frame rfl (fun _ _ => rfl) fun c hc => ⟨⟨_, rfl⟩, Iff.rfl, hdisk _ ?_⟩
      refine hkey ?_ ((h.bufs c).not_fresh_of_lock hc)
      rintro rfl
      exact hj (Option.some.inj (hc.symm.trans hl))
  · simp only [DriveOk, hq]
    exact Or.inr ⟨_, rfl, by simp [hd]⟩
  · have hne : k ≠ (s.buf b).key := by
      rintro rfl
      have := hk b rfl
      simp [(h.bufs b).dirty hd] at this
    exact (h.absent k hk).trans (hdisk k hne).symm
  · have hne : k ≠ (s.buf b).key := by
      rintro rfl
      exact hk i b (by simp [hp, Place.Writes]) rfl
    exact (hdisk k hne).trans (h.durable k hk)

/-- The command that `ideintr` gives to the drive, when `q` is left of the queue. -/
def startNext (s : Cache ι β n) : List (Fin n) → Drive β
  | [] => .idle
  | c :: _ => .busy (s.buf c).command

/-- `ideintr` ends the first request, and starts the next one. -/
lemma ideintr_eq (h : Inv A s p) {q : List (Fin n)} {r : Option β} (hq : s.queue = b :: q)
    (hd : s.drive = .done r) :
    s.ideintr = some ({ s.setBuf b (Cache.fetched (s.buf b) r) with
      queue := q, drive := startNext s q }, [.disk b], none) := by
  cases q with
  | nil => simp [Cache.ideintr, hq, hd, startNext]
  | cons c q =>
      have hcb : c ≠ b := by
        have := h.nodup
        rw [hq] at this
        rintro rfl
        simp at this
      have hblock : (s.buf c).blockno < FSSIZE := (h.bufs c).exist.2
      have hbuf : (s.setBuf b (Cache.fetched (s.buf b) r)).buf c = s.buf c :=
        Cache.setBuf_buf_ne hcb
      simp only [Cache.ideintr, hq, hd, Cache.idestart, hbuf, startNext, not_le.mpr hblock,
        if_false]

/-- The request for `b` has been served. -/
lemma served (h : Inv A s p) {q : List (Fin n)} {r : Option β} (hq : s.queue = b :: q)
    (hd : s.drive = .done r) :
    Inv A { s.setBuf b (Cache.fetched (s.buf b) r) with
      queue := q, drive := startNext s q } p := by
  have hbq : b ∈ s.queue := by simp [hq]
  obtain ⟨i, u, hl, hp, hasks⟩ := h.waits hbq
  have hold := h.bufs b
  have hf := hold.not_fresh_of_lock hl
  have hnd := h.nodup
  rw [hq] at hnd
  obtain ⟨hb, hnd⟩ := List.nodup_cons.mp hnd
  -- now the buffer is as the disk
  have hdisk : (Cache.fetched (s.buf b) r).data = s.disk (s.buf b).key := by
    obtain hserve | ⟨r', hserve, hres⟩ := h.serves hq
    · rw [hd] at hserve
      cases hserve
    · obtain rfl : r = r' := Drive.done.inj (hd.symm.trans hserve)
      cases hdirty : (s.buf b).dirty with
      | true =>
          rw [hdirty, if_pos rfl] at hres
          simp [Cache.fetched, hdirty, hres]
      | false =>
          rw [hdirty, if_neg (by simp)] at hres
          simp [Cache.fetched, hdirty, hres]
  set s' : Cache ι β n :=
    { s.setBuf b (Cache.fetched (s.buf b) r) with queue := q, drive := startNext s q }
  have hself : s'.buf b = Cache.fetched (s.buf b) r := Cache.setBuf_buf_self
  have hbuf : ∀ {c}, c ≠ b → s'.buf c = s.buf c := fun hc => Cache.setBuf_buf_ne hc
  have hkeys : ∀ c, (s'.buf c).key = (s.buf c).key ∧ (s'.buf c).lock = (s.buf c).lock := by
    intro c
    rcases eq_or_ne c b with rfl | hc
    · rw [hself]
      exact ⟨rfl, rfl⟩
    · rw [hbuf hc]
      exact ⟨rfl, rfl⟩
  have hmem : ∀ {c}, c ≠ b → (c ∈ q ↔ c ∈ s.queue) := fun hc => by simp [hq, hc]
  refine ⟨h.list.setBuf rfl hf, fun c => ?_, fun j => ?_, hnd, ?_, fun k j hk => ?_,
    fun k hk => ?_, fun k hk => ?_⟩
  · rcases eq_or_ne c b with rfl | hc
    · rw [hself]
      refine ⟨hold.refs, fun hcq => absurd hcq hb, hold.exist, fun hcd => (by cases hcd),
        fun j hj hr => ⟨(hold.given j hj hr).1, rfl⟩, fun _ => ?_, fun _ _ => Or.inr hdisk⟩
      cases u with
      | bread dev blockno => exact hdisk.trans (h.contents_eq hf hasks.2.1).symm
      | bwrite =>
          refine Eq.trans ?_ (hold.kept hasks.1)
          simp [Cache.fetched, hasks.2]
    · rw [hbuf hc]
      exact (h.bufs c).frame (hmem hc).mp rfl (fun _ => Iff.rfl) (fun _ _ => Iff.rfl)
        (fun _ _ _ => id) fun _ => ⟨rfl, rfl, rfl⟩
  · rcases eq_or_ne j i with rfl | hj
    · rw [hp, PlaceOk, hself]
      refine ⟨hl, Or.inr ⟨hb, ?_, rfl, rfl, hdisk⟩⟩
      cases u with
      | bread dev blockno => exact hasks.1
      | bwrite => trivial
    · refine (h.places j).frame rfl (fun c _ => (hkeys c).1) fun c hc => ?_
      have hcb : c ≠ b := by
        rintro rfl
        exact hj (Option.some.inj (hc.symm.trans hl))
      exact ⟨⟨_, hbuf hcb⟩, hmem hcb, rfl⟩
  · cases q with
    | nil => exact rfl
    | cons c q =>
        refine Or.inl ?_
        rw [hbuf (by rintro rfl; simp at hb)]
        rfl
  · obtain ⟨c, hc, hcl, hr⟩ := h.owned k j hk
    exact ⟨c, (hkeys c).1.trans hc, (hkeys c).2.trans hcl, hr⟩
  · refine h.absent k fun c hc => ?_
    have hv := hk c ((hkeys c).1.trans hc)
    rcases eq_or_ne c b with rfl | hcb
    · rw [hself] at hv
      cases hv
    · rwa [hbuf hcb] at hv
  · exact h.durable k fun j c hw hc => hk j c hw ((hkeys c).1.trans hc)

/-- The drive is at work only if there is a request. -/
lemma exists_request (h : Inv A s p) (hd : s.drive ≠ .idle) : ∃ b q, s.queue = b :: q := by
  have hdrive := h.drive
  cases hq : s.queue with
  | nil =>
      rw [DriveOk, hq] at hdrive
      exact absurd hdrive hd
  | cons b q => exact ⟨b, q, rfl⟩

/-- The drive ends a command without an error. -/
lemma complete (h : Inv A s p) (hc : s.complete false = some s') :
    Inv A s' p ∧ s'.buf = s.buf ∧ s'.queue = s.queue ∧ ∃ r, s'.drive = .done r := by
  cases hd : s.drive with
  | idle | done r => simp [Cache.complete, hd] at hc
  | busy c =>
      obtain ⟨b, q, hq⟩ := h.exists_request (by simp [hd])
      rw [h.complete_eq hq hd, Option.some.injEq] at hc
      subst hc
      split_ifs with hdirty
      · exact ⟨h.completed_write hq hdirty, rfl, rfl, _, rfl⟩
      · exact ⟨h.completed_read hq (by simpa using hdirty), rfl, rfl, _, rfl⟩

/-- An interrupt of the drive. -/
lemma ideintr (h : Inv A s p) {cs : List (Chan n)} {e : Option (BioEvent ι β)}
    (hi : s.ideintr = some (s', cs, e)) : e = none ∧ Inv A s' p ∧ ∃ b,
      s.queue = b :: s'.queue ∧ cs = [.disk b] ∧ ∀ c, (s'.buf c).lock = (s.buf c).lock := by
  cases hd : s.drive with
  | idle | busy c => simp [Cache.ideintr, hd] at hi
  | done r =>
      obtain ⟨b, q, hq⟩ := h.exists_request (by simp [hd])
      rw [h.ideintr_eq hq hd, Option.some.injEq, Prod.mk.injEq, Prod.mk.injEq] at hi
      obtain ⟨rfl, rfl, rfl⟩ := hi
      refine ⟨rfl, h.served hq hd, b, hq, rfl, fun c => ?_⟩
      rcases eq_or_ne c b with rfl | hc
      · simp [Cache.setBuf, Cache.fetched]
      · simp [Cache.setBuf, hc]

end Inv

end Xv6Lottery.Bio
