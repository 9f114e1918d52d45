import AgentOS.Model.Pipe

/-!
# Bytes and sleepers of a pipe

* `pipe_fifo`: along every run, the bytes put into the pipe are those taken out of it, in order,
  and those in it; across the wrapping of the counters.
* `pipe_sleepers`: a reader asleep finds the pipe empty and a writer asleep finds it full, and the
  other end open, unless a process with the lock is about to wake it. A step breaks this if and only
  if a writer that has put bytes into the pipe while a reader was asleep returns since it has been
  killed: it wakes nobody.
-/

namespace AgentOS

open AgentOS.Ring Machine

namespace Pipe

variable {s t : Pipe} {j : Slot} {a : PipeLabel}

/-! ### The ring -/

/-- The number of bytes in the pipe. -/
def count (s : Pipe) : ℕ := (s.nwrite - s.nread).toNat

theorem contents_length : s.contents.length = s.count := window_length ..

theorem full_iff : s.Full ↔ s.count = 512 := by
  have h512 : BitVec.ofNat 32 pipesize = 512#32 := rfl
  unfold Full count
  rw [h512]
  constructor
  · intro h
    bv_omega
  · intro h
    bv_omega

theorem empty_iff : s.nread = s.nwrite ↔ s.count = 0 := by
  unfold count
  constructor
  · intro h
    bv_omega
  · intro h
    bv_omega

/-- The cell of the next write is the one behind the contents. -/
theorem write_cell : (Fin.ofNat pipesize s.nwrite.toNat : Fin pipesize) =
    Fin.ofNat pipesize s.nread.toNat + Fin.ofNat pipesize s.count := by
  have hp : pipesize = 512 := rfl
  have hc : s.nwrite.toNat = (s.nread.toNat + s.count) % 2 ^ 32 := by
    unfold count
    bv_omega
  apply Fin.ext
  rw [Fin.val_add, Fin.val_ofNat, Fin.val_ofNat, Fin.val_ofNat, hp]
  omega

/-- **A byte is put behind the others.** -/
theorem contents_put (h : s.count < 512) (x : UInt8) :
    (s.put x).contents = s.contents ++ [x] := by
  have hc : (s.put x).nwrite - (s.put x).nread = BitVec.ofNat 32 (s.count + 1) := by
    unfold count at h ⊢
    unfold put
    dsimp only
    bv_omega
  have hn : ((s.put x).nwrite - (s.put x).nread).toNat = s.count + 1 := by
    rw [hc]
    bv_omega
  unfold contents
  rw [hn]
  unfold put
  dsimp only
  rw [write_cell]
  exact window_push s.data _ h x

/-- **The oldest byte is taken.** -/
theorem contents_pop (h : s.nread ≠ s.nwrite) :
    s.contents = s.front :: s.pop.contents ∧ s.pop.count + 1 = s.count := by
  have hpos : s.count ≠ 0 := fun h0 => h (empty_iff.2 h0)
  have hc : s.pop.count + 1 = s.count := by
    unfold count at hpos ⊢
    unfold pop
    dsimp only
    bv_omega
  refine ⟨?_, hc⟩
  have hhead : (Fin.ofNat pipesize s.pop.nread.toNat : Fin pipesize) =
      Fin.ofNat pipesize s.nread.toNat + 1 := by
    have hp : pipesize = 512 := rfl
    have hr : s.pop.nread.toNat = (s.nread.toNat + 1) % 2 ^ 32 := by
      unfold pop
      bv_omega
    apply Fin.ext
    have h1 : ((1 : Fin pipesize) : ℕ) = 1 := rfl
    rw [Fin.val_add, Fin.val_ofNat, Fin.val_ofNat, hr, h1, hp]
    omega
  have hw : s.contents = window s.data (Fin.ofNat pipesize s.nread.toNat) (s.pop.count + 1) := by
    rw [hc]
    rfl
  rw [hw, window_cons, ← hhead]
  rfl

/-- The bytes of a pipe whose ring does not change. -/
theorem contents_congr (hd : t.data = s.data) (hr : t.nread = s.nread) (hw : t.nwrite = s.nwrite) :
    t.contents = s.contents ∧ t.count = s.count := by
  unfold contents count
  rw [hd, hr, hw]
  exact ⟨rfl, rfl⟩

/-- What a step does to the bytes. -/
structure Moves (s t : Pipe) (puts takes : List UInt8) : Prop where
  bytes : s.contents ++ puts = takes ++ t.contents
  room : s.count ≤ 512 → t.count ≤ 512

theorem Moves.none (hd : t.data = s.data) (hr : t.nread = s.nread) (hw : t.nwrite = s.nwrite) :
    Moves s t [] [] := by
  obtain ⟨hc, hn⟩ := contents_congr hd hr hw
  refine ⟨?_, ?_⟩
  · rw [hc, List.append_nil, List.nil_append]
  · rw [hn]
    exact id

/-- **A round of `pipewrite`.** -/
theorem writeRound_moves {src : List UInt8} {i : ℕ} {killed fault : Bool}
    (hroom : s.count ≤ 512) :
    Moves s (s.writeRound j src i killed fault)
      (if i < src.length ∧ s.readopen = true ∧ killed = false ∧ ¬s.Full ∧ fault = false then
        [src.getD i 0] else []) [] := by
  unfold writeRound
  by_cases hi : i < src.length
  · rw [if_pos hi]
    by_cases hk : s.readopen = false ∨ killed = true
    · rw [if_pos hk, if_neg]
      · exact .none rfl rfl rfl
      · rintro ⟨-, hro, hkn, -⟩
        rcases hk with hk | hk
        · rw [hk] at hro
          cases hro
        · rw [hk] at hkn
          cases hkn
    · rw [if_neg hk]
      by_cases hf : s.Full
      · rw [if_pos hf, if_neg fun hc => hc.2.2.2.1 hf]
        exact .none rfl rfl rfl
      · rw [if_neg hf]
        cases fault with
        | true =>
          rw [if_pos rfl, if_neg fun hc => Bool.noConfusion hc.2.2.2.2]
          exact .none rfl rfl rfl
        | false =>
          have hlt : s.count < 512 := by
            rw [full_iff] at hf
            omega
          rw [not_or, Bool.not_eq_false, Bool.not_eq_true] at hk
          rw [if_neg Bool.false_ne_true, if_pos ⟨hi, hk.1, hk.2, hf, rfl⟩]
          have hp := contents_put hlt (src.getD i 0)
          obtain ⟨hc, hn⟩ := contents_congr (s := s.put (src.getD i 0))
            (t := (s.put (src.getD i 0)).goto j (.write src (i + 1))) rfl rfl rfl
          refine ⟨?_, fun _ => ?_⟩
          · rw [hc, hp]
            rfl
          · rw [hn, ← contents_length, hp, List.length_append, contents_length,
              List.length_singleton]
            omega
  · rw [if_neg hi, if_neg fun hc => hi hc.1]
    exact .none rfl rfl rfl

/-- **A round of the second loop of `piperead`.** -/
theorem copyRound_moves {n i : ℕ} {fault : Bool} :
    Moves s (s.copyRound j n i fault) []
      (if i < n ∧ s.nread ≠ s.nwrite then [s.front] else []) := by
  unfold copyRound
  by_cases hc : i < n ∧ s.nread ≠ s.nwrite
  · rw [if_pos hc, if_pos hc]
    obtain ⟨hcont, hn⟩ := contents_pop hc.2
    have hall : ∀ u : Pipe, u.data = s.pop.data → u.nread = s.pop.nread →
        u.nwrite = s.pop.nwrite → Moves s u [] [s.front] := by
      intro u hd hr hw
      obtain ⟨huc, hun⟩ := contents_congr hd hr hw
      refine ⟨?_, fun hroom => ?_⟩
      · rw [List.append_nil, huc, hcont]
        rfl
      · rw [hun]
        omega
    cases fault with
    | true => exact hall _ rfl rfl rfl
    | false => exact hall _ rfl rfl rfl
  · rw [if_neg hc, if_neg hc]
    exact .none rfl rfl rfl

theorem readRound_moves {n : ℕ} {killed : Bool} : Moves s (s.readRound j n killed) [] [] := by
  unfold readRound
  split
  · split <;> exact .none rfl rfl rfl
  · exact .none rfl rfl rfl

/-- **Every step** moves bytes first in, first out. -/
theorem step_moves (hroom : s.count ≤ 512) (h : s.step a = some t) :
    Moves s t (s.stored a) (s.taken a) := by
  obtain ⟨j, op⟩ := a
  unfold step at h
  unfold stored taken
  dsimp only at h ⊢
  split at h
  · obtain rfl := Option.some.inj h
    exact .none rfl rfl rfl
  · obtain rfl := Option.some.inj h
    exact .none rfl rfl rfl
  · split at h <;> [skip; cases h]
    obtain rfl := Option.some.inj h
    exact .none rfl rfl rfl
  · split at h <;> [skip; cases h]
    obtain rfl := Option.some.inj h
    exact .none rfl rfl rfl
  · rename_i hj
    obtain rfl := Option.some.inj h
    rw [hj]
    exact writeRound_moves hroom
  · rename_i hj
    obtain rfl := Option.some.inj h
    rw [hj]
    exact readRound_moves
  · rename_i hj
    obtain rfl := Option.some.inj h
    rw [hj]
    exact copyRound_moves
  · obtain rfl := Option.some.inj h
    exact .none rfl rfl rfl
  · obtain rfl := Option.some.inj h
    exact .none rfl rfl rfl
  · split at h <;> [skip; cases h]
    obtain rfl := Option.some.inj h
    unfold close
    split <;> exact .none rfl rfl rfl
  · cases h

/-! ### The steps -/

/-- **The steps.** -/
inductive PipeStep (s : Pipe) : PipeLabel → Pipe → Prop
  | pipewrite {j : Slot} {src : List UInt8} (hj : s.calls j = .out) :
      PipeStep s ⟨j, .pipewrite src⟩ (s.goto j (.writeWait src 0))
  | piperead {j : Slot} {n : ℕ} (hj : s.calls j = .out) :
      PipeStep s ⟨j, .piperead n⟩ (s.goto j (.readWait n))
  | lockWrite {j : Slot} {src : List UInt8} {i : ℕ} (hj : s.calls j = .writeWait src i)
      (hl : s.lock = none) :
      PipeStep s ⟨j, .acquire⟩ ({ s with lock := some j }.goto j (.write src i))
  | lockRead {j : Slot} {n : ℕ} (hj : s.calls j = .readWait n) (hl : s.lock = none) :
      PipeStep s ⟨j, .acquire⟩ ({ s with lock := some j }.goto j (.read n))
  | stopWrite {j : Slot} {src : List UInt8} {i : ℕ} {killed fault : Bool}
      (hj : s.calls j = .write src i) (hi : i < src.length)
      (hk : s.readopen = false ∨ killed = true) :
      PipeStep s ⟨j, .round killed fault⟩ (s.release.goto j .out)
  | sleepWrite {j : Slot} {src : List UInt8} {i : ℕ} {killed fault : Bool}
      (hj : s.calls j = .write src i) (hk : ¬(s.readopen = false ∨ killed = true)) (hf : s.Full) :
      PipeStep s ⟨j, .round killed fault⟩ (s.wakeReaders.release.goto j (.writeSleep src i))
  | endWrite {j : Slot} {src : List UInt8} {i : ℕ} {killed fault : Bool}
      (hj : s.calls j = .write src i) (hk : i < src.length → killed = false) :
      PipeStep s ⟨j, .round killed fault⟩ (s.wakeReaders.release.goto j .out)
  | put {j : Slot} {src : List UInt8} {i : ℕ} {killed fault : Bool}
      (hj : s.calls j = .write src i) (hk : killed = false) (hf : ¬s.Full) :
      PipeStep s ⟨j, .round killed fault⟩ ((s.put (src.getD i 0)).goto j (.write src (i + 1)))
  | stopRead {j : Slot} {n : ℕ} {killed fault : Bool} (hj : s.calls j = .read n) :
      PipeStep s ⟨j, .round killed fault⟩ (s.release.goto j .out)
  | sleepRead {j : Slot} {n : ℕ} {killed fault : Bool} (hj : s.calls j = .read n)
      (he : s.nread = s.nwrite ∧ s.writeopen = true) :
      PipeStep s ⟨j, .round killed fault⟩ (s.release.goto j (.readSleep n))
  | copy {j : Slot} {n : ℕ} {killed fault : Bool} (hj : s.calls j = .read n) :
      PipeStep s ⟨j, .round killed fault⟩ (s.goto j (.copy n 0))
  | lose {j : Slot} {n i : ℕ} {killed fault : Bool} (hj : s.calls j = .copy n i)
      (hne : s.nread ≠ s.nwrite) :
      PipeStep s ⟨j, .round killed fault⟩ (s.pop.wakeWriters.release.goto j .out)
  | take {j : Slot} {n i : ℕ} {killed fault : Bool} (hj : s.calls j = .copy n i)
      (hne : s.nread ≠ s.nwrite) :
      PipeStep s ⟨j, .round killed fault⟩ (s.pop.goto j (.copy n (i + 1)))
  | endRead {j : Slot} {n i : ℕ} {killed fault : Bool} (hj : s.calls j = .copy n i) :
      PipeStep s ⟨j, .round killed fault⟩ (s.wakeWriters.release.goto j .out)
  | killWrite {j : Slot} {src : List UInt8} {i : ℕ} (hj : s.calls j = .writeSleep src i) :
      PipeStep s ⟨j, .kill⟩ (s.goto j (.writeWait src i))
  | killRead {j : Slot} {n : ℕ} (hj : s.calls j = .readSleep n) :
      PipeStep s ⟨j, .kill⟩ (s.goto j (.readWait n))
  | close {j : Slot} {writable : Bool} (hl : s.lock = none) :
      PipeStep s ⟨j, .pipeclose writable⟩ (s.close writable)

theorem writeRound_step {src : List UInt8} {i : ℕ} {killed fault : Bool}
    (hj : s.calls j = .write src i) :
    PipeStep s ⟨j, .round killed fault⟩ (s.writeRound j src i killed fault) := by
  unfold writeRound
  by_cases hi : i < src.length
  · rw [if_pos hi]
    by_cases hk : s.readopen = false ∨ killed = true
    · rw [if_pos hk]
      exact .stopWrite hj hi hk
    · rw [if_neg hk]
      have hkill : killed = false := by
        rw [not_or] at hk
        exact Bool.eq_false_iff.2 hk.2
      by_cases hf : s.Full
      · rw [if_pos hf]
        exact .sleepWrite hj hk hf
      · rw [if_neg hf]
        split
        · exact .endWrite hj fun _ => hkill
        · exact .put hj hkill hf
  · rw [if_neg hi]
    exact .endWrite hj fun hlt => absurd hlt hi

theorem readRound_step {n : ℕ} {killed fault : Bool} (hj : s.calls j = .read n) :
    PipeStep s ⟨j, .round killed fault⟩ (s.readRound j n killed) := by
  unfold readRound
  by_cases he : s.nread = s.nwrite ∧ s.writeopen = true
  · rw [if_pos he]
    split
    · exact .stopRead hj
    · exact .sleepRead hj he
  · rw [if_neg he]
    exact .copy hj

theorem copyRound_step {n i : ℕ} {killed fault : Bool} (hj : s.calls j = .copy n i) :
    PipeStep s ⟨j, .round killed fault⟩ (s.copyRound j n i fault) := by
  unfold copyRound
  by_cases hc : i < n ∧ s.nread ≠ s.nwrite
  · rw [if_pos hc]
    split
    · exact .lose hj hc.2
    · exact .take hj hc.2
  · rw [if_neg hc]
    exact .endRead hj

theorem step_inv (h : s.step a = some t) : PipeStep s a t := by
  obtain ⟨j, op⟩ := a
  unfold step at h
  dsimp only at h
  split at h
  · rename_i hj
    obtain rfl := Option.some.inj h
    exact .pipewrite hj
  · rename_i hj
    obtain rfl := Option.some.inj h
    exact .piperead hj
  · rename_i hj
    split at h <;> [skip; cases h]
    rename_i hl
    obtain rfl := Option.some.inj h
    exact .lockWrite hj hl
  · rename_i hj
    split at h <;> [skip; cases h]
    rename_i hl
    obtain rfl := Option.some.inj h
    exact .lockRead hj hl
  · rename_i hj
    obtain rfl := Option.some.inj h
    exact writeRound_step hj
  · rename_i hj
    obtain rfl := Option.some.inj h
    exact readRound_step hj
  · rename_i hj
    obtain rfl := Option.some.inj h
    exact copyRound_step hj
  · rename_i hj
    obtain rfl := Option.some.inj h
    exact .killWrite hj
  · rename_i hj
    obtain rfl := Option.some.inj h
    exact .killRead hj
  · split at h <;> [skip; cases h]
    rename_i hl
    obtain rfl := Option.some.inj h
    exact .close hl
  · cases h

/-! ### Processes -/

/-- A process that stays where it is, or is woken. -/
structure Stays (c c' : PipeCall) : Prop where
  inside : c'.Inside ↔ c.Inside
  filling : c'.Filling ↔ c.Filling
  draining : c'.Draining ↔ c.Draining
  writes : c'.Writes ↔ c.Writes
  reads : c'.Reads ↔ c.Reads
  reader : c'.ReaderAsleep → c.ReaderAsleep
  writer : c'.WriterAsleep → c.WriterAsleep

theorem Stays.refl (c : PipeCall) : Stays c c :=
  ⟨Iff.rfl, Iff.rfl, Iff.rfl, Iff.rfl, Iff.rfl, id, id⟩

theorem stays_wakeReader (c : PipeCall) : Stays c c.wakeReader := by
  cases c with
  | readSleep n => exact ⟨Iff.rfl, Iff.rfl, Iff.rfl, Iff.rfl, Iff.rfl, False.elim, False.elim⟩
  | _ => exact Stays.refl _

theorem stays_wakeWriter (c : PipeCall) : Stays c c.wakeWriter := by
  cases c with
  | writeSleep src i => exact ⟨Iff.rfl, Iff.rfl, Iff.rfl, Iff.rfl, Iff.rfl, False.elim, False.elim⟩
  | _ => exact Stays.refl _

theorem wakeReader_awake (c : PipeCall) : ¬c.wakeReader.ReaderAsleep := by
  cases c <;> exact id

theorem wakeWriter_awake (c : PipeCall) : ¬c.wakeWriter.WriterAsleep := by
  cases c <;> exact id

theorem goto_self {c : PipeCall} : (s.goto j c).calls j = c := Function.update_self ..

theorem goto_ne {i : Slot} {c : PipeCall} (h : i ≠ j) : (s.goto j c).calls i = s.calls i :=
  Function.update_of_ne h ..

/-- **The lock and the ends.** -/
structure Held (s : Pipe) : Prop where
  lock : ∀ j, (s.calls j).Inside ↔ s.lock = some j
  writers : ∀ j, (s.calls j).Writes → s.writeopen = true
  readers : ∀ j, (s.calls j).Reads → s.readopen = true

/-- From `s` to `t`, process `j` goes on to `c`, and the others stay where they are. -/
structure Goes (j : Slot) (c : PipeCall) (s t : Pipe) : Prop where
  self : t.calls j = c
  other : ∀ i, i ≠ j → Stays (s.calls i) (t.calls i)
  writeopen : t.writeopen = s.writeopen
  readopen : t.readopen = s.readopen

theorem Goes.ends {c : PipeCall} (hg : Goes j c s t) (h : Held s)
    (hw : c.Writes → s.writeopen = true) (hr : c.Reads → s.readopen = true) :
    (∀ i, (t.calls i).Writes → t.writeopen = true) ∧
      ∀ i, (t.calls i).Reads → t.readopen = true := by
  rw [hg.writeopen, hg.readopen]
  constructor
  · intro i hi
    by_cases hij : i = j
    · rw [hij, hg.self] at hi
      exact hw hi
    · exact h.writers i ((hg.other i hij).writes.1 hi)
  · intro i hi
    by_cases hij : i = j
    · rw [hij, hg.self] at hi
      exact hr hi
    · exact h.readers i ((hg.other i hij).reads.1 hi)

/-- The lock changes hands as process `j` goes on. -/
theorem Goes.held {c : PipeCall} (hg : Goes j c s t) (h : Held s)
    (hw : c.Writes → s.writeopen = true) (hr : c.Reads → s.readopen = true)
    (hl : t.lock = s.lock ∨ s.lock = none ∨ s.lock = some j ∧ t.lock = none)
    (hj : c.Inside ↔ t.lock = some j) (hother : ∀ i, i ≠ j → t.lock = some i → s.lock = some i) :
    Held t := by
  obtain ⟨hws, hrs⟩ := hg.ends h hw hr
  refine ⟨fun i => ?_, hws, hrs⟩
  by_cases hij : i = j
  · rw [hij, hg.self]
    exact hj
  · rw [(hg.other i hij).inside, h.lock i]
    refine ⟨fun hi => ?_, hother i hij⟩
    rcases hl with hl | hl | ⟨hl, -⟩
    · rw [hl]
      exact hi
    · rw [hl] at hi
      cases hi
    · rw [hl] at hi
      exact absurd (Option.some.inj hi).symm hij

/-- A step with the lock that gives it back. -/
theorem Goes.held_release {c : PipeCall} (hg : Goes j c s t) (h : Held s)
    (hj : (s.calls j).Inside) (hc : ¬c.Inside) (hl : t.lock = none)
    (hw : c.Writes → s.writeopen = true) (hr : c.Reads → s.readopen = true) : Held t := by
  refine hg.held h hw hr (Or.inr (Or.inr ⟨(h.lock j).1 hj, hl⟩)) ?_ fun i _ hi => ?_
  · rw [hl]
    exact ⟨fun hin => absurd hin hc, fun he => absurd he.symm (Option.some_ne_none j)⟩
  · rw [hl] at hi
    cases hi

/-- A step that leaves the lock. -/
theorem Goes.held_keep {c : PipeCall} (hg : Goes j c s t) (h : Held s)
    (hc : c.Inside ↔ (s.calls j).Inside) (hl : t.lock = s.lock)
    (hw : c.Writes → s.writeopen = true) (hr : c.Reads → s.readopen = true) : Held t := by
  refine hg.held h hw hr (Or.inl hl) ?_ fun i _ hi => ?_
  · rw [hc, hl]
    exact h.lock j
  · rwa [hl] at hi

/-- A step that takes the lock. -/
theorem Goes.held_take {c : PipeCall} (hg : Goes j c s t) (h : Held s) (hc : c.Inside)
    (hl : s.lock = none) (hl' : t.lock = some j)
    (hw : c.Writes → s.writeopen = true) (hr : c.Reads → s.readopen = true) : Held t := by
  refine hg.held h hw hr (Or.inr (Or.inl hl)) ?_ fun i hij hi => ?_
  · exact ⟨fun _ => hl', fun _ => hc⟩
  · rw [hl'] at hi
    exact absurd (Option.some.inj hi).symm hij

theorem goes_goto {c : PipeCall} {u : Pipe} (hu : ∀ i, Stays (s.calls i) (u.calls i))
    (hw : u.writeopen = s.writeopen) (hr : u.readopen = s.readopen) : Goes j c s (u.goto j c) := by
  refine ⟨goto_self, fun i hi => ?_, hw, hr⟩
  rw [goto_ne hi]
  exact hu i

theorem goes_same {c : PipeCall} {u : Pipe} (hu : u.calls = s.calls)
    (hw : u.writeopen = s.writeopen) (hr : u.readopen = s.readopen) : Goes j c s (u.goto j c) :=
  goes_goto (fun i => by rw [hu]; exact Stays.refl _) hw hr

theorem goes_wakeReaders {c : PipeCall} : Goes j c s (s.wakeReaders.release.goto j c) :=
  goes_goto (fun _ => stays_wakeReader _) rfl rfl

theorem goes_wakeWriters {c : PipeCall} {u : Pipe} (hu : u.calls = s.calls)
    (hw : u.writeopen = s.writeopen) (hr : u.readopen = s.readopen) :
    Goes j c s (u.wakeWriters.release.goto j c) := by
  refine goes_goto (fun i => ?_) hw hr
  change Stays (s.calls i) (u.calls i).wakeWriter
  rw [hu]
  exact stays_wakeWriter _

/-- **Every step keeps the lock and the ends.** -/
theorem held_step (h : Held s) (hok : s.UsedWell a) (hn : s.step a = some t) : Held t := by
  cases step_inv hn with
  | @pipewrite j src hj =>
    have hg : Goes j (.writeWait src 0) s _ := goes_same (u := s) rfl rfl rfl
    exact hg.held_keep h (by rw [hj]; exact Iff.rfl) rfl (fun _ => hok) False.elim
  | @piperead j n hj =>
    have hg : Goes j (.readWait n) s _ := goes_same (u := s) rfl rfl rfl
    exact hg.held_keep h (by rw [hj]; exact Iff.rfl) rfl False.elim fun _ => hok
  | @lockWrite j src i hj hl =>
    have hg : Goes j (.write src i) s _ := goes_same (u := { s with lock := some j }) rfl rfl rfl
    exact hg.held_take h trivial hl rfl (fun _ => h.writers j (by rw [hj]; trivial)) False.elim
  | @lockRead j n hj hl =>
    have hg : Goes j (.read n) s _ := goes_same (u := { s with lock := some j }) rfl rfl rfl
    exact hg.held_take h trivial hl rfl False.elim fun _ => h.readers j (by rw [hj]; trivial)
  | @stopWrite j src i killed fault hj =>
    have hg : Goes j .out s _ := goes_same (u := s.release) rfl rfl rfl
    exact hg.held_release h (by rw [hj]; trivial) id rfl False.elim False.elim
  | @sleepWrite j src i killed fault hj =>
    have hg : Goes j (.writeSleep src i) s _ := goes_wakeReaders
    exact hg.held_release h (by rw [hj]; trivial) id rfl
      (fun _ => h.writers j (by rw [hj]; trivial)) False.elim
  | @endWrite j src i killed fault hj =>
    have hg : Goes j .out s _ := goes_wakeReaders
    exact hg.held_release h (by rw [hj]; trivial) id rfl False.elim False.elim
  | @put j src i killed fault hj =>
    have hg : Goes j (.write src (i + 1)) s _ := goes_same (u := s.put (src.getD i 0)) rfl rfl rfl
    exact hg.held_keep h (by rw [hj]; exact Iff.rfl) rfl
      (fun _ => h.writers j (by rw [hj]; trivial)) False.elim
  | @stopRead j n killed fault hj =>
    have hg : Goes j .out s _ := goes_same (u := s.release) rfl rfl rfl
    exact hg.held_release h (by rw [hj]; trivial) id rfl False.elim False.elim
  | @sleepRead j n killed fault hj =>
    have hg : Goes j (.readSleep n) s _ := goes_same (u := s.release) rfl rfl rfl
    exact hg.held_release h (by rw [hj]; trivial) id rfl False.elim
      fun _ => h.readers j (by rw [hj]; trivial)
  | @copy j n killed fault hj =>
    have hg : Goes j (.copy n 0) s _ := goes_same (u := s) rfl rfl rfl
    exact hg.held_keep h (by rw [hj]; exact Iff.rfl) rfl False.elim
      fun _ => h.readers j (by rw [hj]; trivial)
  | @lose j n i killed fault hj =>
    have hg : Goes j .out s _ := goes_wakeWriters (u := s.pop) rfl rfl rfl
    exact hg.held_release h (by rw [hj]; trivial) id rfl False.elim False.elim
  | @take j n i killed fault hj =>
    have hg : Goes j (.copy n (i + 1)) s _ := goes_same (u := s.pop) rfl rfl rfl
    exact hg.held_keep h (by rw [hj]; exact Iff.rfl) rfl False.elim
      fun _ => h.readers j (by rw [hj]; trivial)
  | @endRead j n i killed fault hj =>
    have hg : Goes j .out s _ := goes_wakeWriters (u := s) rfl rfl rfl
    exact hg.held_release h (by rw [hj]; trivial) id rfl False.elim False.elim
  | @killWrite j src i hj =>
    have hg : Goes j (.writeWait src i) s _ := goes_same (u := s) rfl rfl rfl
    exact hg.held_keep h (by rw [hj]; exact Iff.rfl) rfl
      (fun _ => h.writers j (by rw [hj]; trivial)) False.elim
  | @killRead j n hj =>
    have hg : Goes j (.readWait n) s _ := goes_same (u := s) rfl rfl rfl
    exact hg.held_keep h (by rw [hj]; exact Iff.rfl) rfl False.elim
      fun _ => h.readers j (by rw [hj]; trivial)
  | @close j writable hl =>
    cases writable with
    | true =>
      refine ⟨fun i => (stays_wakeReader _).inside.trans (h.lock i), fun i hi => ?_, fun i hi => ?_⟩
      · exact absurd ((stays_wakeReader _).writes.1 hi) (hok i)
      · exact h.readers i ((stays_wakeReader _).reads.1 hi)
    | false =>
      refine ⟨fun i => (stays_wakeWriter _).inside.trans (h.lock i), fun i hi => ?_, fun i hi => ?_⟩
      · exact h.writers i ((stays_wakeWriter _).writes.1 hi)
      · exact absurd ((stays_wakeWriter _).reads.1 hi) (hok i)

/-! ### Sleepers -/

theorem readerAsleep_reads {c : PipeCall} (h : c.ReaderAsleep) : c.Reads := by
  cases c with
  | readSleep n => trivial
  | _ => exact h.elim

theorem filling_inside {c : PipeCall} (h : c.Filling) : c.Inside := by
  cases c with
  | write src i => trivial
  | _ => exact h.elim

theorem draining_inside {c : PipeCall} (h : c.Draining) : c.Inside := by
  cases c with
  | copy n i => trivial
  | _ => exact h.elim

theorem filling_not_draining {c : PipeCall} (h : c.Filling) : ¬c.Draining := by
  cases c with
  | write src i => exact id
  | _ => exact h.elim

/-- One process at a time is inside. -/
theorem Held.eq_of_inside (h : Held s) {i : Slot} (hi : (s.calls i).Inside)
    (hj : (s.calls j).Inside) : i = j := by
  have hl := (h.lock j).1 hj
  rw [(h.lock i).1 hi] at hl
  exact Option.some.inj hl

/-- Nobody sleeps on `pi->nread` as a byte is taken out. -/
theorem Justified.no_reader (h : s.Justified) (hh : Held s) (hne : s.nread ≠ s.nwrite)
    (hj : (s.calls j).Draining) (k : Slot) : ¬(s.calls k).ReaderAsleep := by
  intro hk
  rcases h.reader k hk with ⟨he, -⟩ | ⟨i, hi⟩
  · exact hne he
  · have hij := hh.eq_of_inside (filling_inside hi) (draining_inside hj)
    rw [hij] at hi
    exact filling_not_draining hi hj

/-- Nobody sleeps on `pi->nwrite` as a byte is put in. -/
theorem Justified.no_writer (h : s.Justified) (hh : Held s) (hf : ¬s.Full)
    (hj : (s.calls j).Filling) (k : Slot) : ¬(s.calls k).WriterAsleep := by
  intro hk
  rcases h.writer k hk with ⟨he, -⟩ | ⟨i, hi⟩
  · exact hf he
  · have hij := hh.eq_of_inside (draining_inside hi) (filling_inside hj)
    rw [hij] at hi
    exact filling_not_draining hj hi

/-- The readers asleep after a step that leaves the ring. -/
theorem Goes.reader {c : PipeCall} (hg : Goes j c s t) (h : s.Justified)
    (hr : t.nread = s.nread) (hw : t.nwrite = s.nwrite)
    (hs : c.ReaderAsleep → s.nread = s.nwrite ∧ s.writeopen = true)
    (hf : ¬(s.calls j).Filling) (k : Slot) (hk : (t.calls k).ReaderAsleep) :
    t.nread = t.nwrite ∧ t.writeopen = true ∨ ∃ j, (t.calls j).Filling := by
  rw [hr, hw, hg.writeopen]
  by_cases hkj : k = j
  · rw [hkj, hg.self] at hk
    exact .inl (hs hk)
  · rcases h.reader k ((hg.other k hkj).reader hk) with he | ⟨i, hi⟩
    · exact .inl he
    · have hij : i ≠ j := by
        rintro rfl
        exact hf hi
      exact .inr ⟨i, (hg.other i hij).filling.2 hi⟩

/-- The writers asleep after a step that leaves the ring. -/
theorem Goes.writer {c : PipeCall} (hg : Goes j c s t) (h : s.Justified)
    (hr : t.nread = s.nread) (hw : t.nwrite = s.nwrite)
    (hs : c.WriterAsleep → s.Full ∧ s.readopen = true)
    (hd : ¬(s.calls j).Draining) (k : Slot) (hk : (t.calls k).WriterAsleep) :
    t.Full ∧ t.readopen = true ∨ ∃ j, (t.calls j).Draining := by
  unfold Full at hs ⊢
  rw [hr, hw, hg.readopen]
  by_cases hkj : k = j
  · rw [hkj, hg.self] at hk
    exact .inl (hs hk)
  · rcases h.writer k ((hg.other k hkj).writer hk) with he | ⟨i, hi⟩
    · exact .inl he
    · have hij : i ≠ j := by
        rintro rfl
        exact hd hi
      exact .inr ⟨i, (hg.other i hij).draining.2 hi⟩

/-- A step that leaves the ring, of a process that is not in a loop. -/
theorem Goes.justified {c : PipeCall} (hg : Goes j c s t) (h : s.Justified)
    (hr : t.nread = s.nread) (hw : t.nwrite = s.nwrite)
    (hrs : c.ReaderAsleep → s.nread = s.nwrite ∧ s.writeopen = true)
    (hws : c.WriterAsleep → s.Full ∧ s.readopen = true)
    (hf : ¬(s.calls j).Filling) (hd : ¬(s.calls j).Draining) : t.Justified :=
  ⟨hg.reader h hr hw hrs hf, hg.writer h hr hw hws hd⟩

theorem wakeReaders_awake {c : PipeCall} (hc : ¬c.ReaderAsleep) (k : Slot) :
    ¬((s.wakeReaders.release.goto j c).calls k).ReaderAsleep := by
  by_cases hkj : k = j
  · rw [hkj, goto_self]
    exact hc
  · rw [goto_ne hkj]
    exact wakeReader_awake _

theorem wakeWriters_awake {c : PipeCall} (hc : ¬c.WriterAsleep) (k : Slot) :
    ¬((s.wakeWriters.release.goto j c).calls k).WriterAsleep := by
  by_cases hkj : k = j
  · rw [hkj, goto_self]
    exact hc
  · rw [goto_ne hkj]
    exact wakeWriter_awake _

/-- **A writer that returns without waking**: no reader that it leaves asleep has a byte to read. -/
theorem stopWrite_justified (h : s.Justified) (hh : Held s) {src : List UInt8} {i : ℕ}
    {killed fault : Bool} (hj : s.calls j = .write src i) (hi : i < src.length)
    (hk : s.readopen = false ∨ killed = true)
    (hstr : ¬s.Strands ⟨j, .round killed fault⟩) : (s.release.goto j .out).Justified := by
  have hg : Goes j .out s (s.release.goto j .out) := goes_same rfl rfl rfl
  have hopen := hh.writers j (by rw [hj]; trivial)
  refine ⟨fun k hrk => ?_, hg.writer h rfl rfl False.elim (by rw [hj]; exact id)⟩
  have hkj : k ≠ j := by
    rintro rfl
    rw [goto_self] at hrk
    exact hrk
  have hsk := (hg.other k hkj).reader hrk
  have hkilled : killed = true := by
    rcases hk with hro | hk
    · rw [hh.readers k (readerAsleep_reads hsk)] at hro
      cases hro
    · exact hk
  refine .inl ⟨?_, hopen⟩
  by_contra hne
  apply hstr
  unfold Strands
  rw [hkilled]
  dsimp only
  rw [hj]
  exact ⟨hi, hne, k, hsk⟩

/-- **Every other step** leaves no process asleep without a reason. -/
theorem justified_step (h : s.Justified) (hh : Held s) (hstr : ¬s.Strands a)
    (hn : s.step a = some t) : t.Justified := by
  cases step_inv hn with
  | @pipewrite j src hj =>
    have hg : Goes j (.writeWait src 0) s _ := goes_same (u := s) rfl rfl rfl
    exact hg.justified h rfl rfl False.elim False.elim (by rw [hj]; exact id) (by rw [hj]; exact id)
  | @piperead j n hj =>
    have hg : Goes j (.readWait n) s _ := goes_same (u := s) rfl rfl rfl
    exact hg.justified h rfl rfl False.elim False.elim (by rw [hj]; exact id) (by rw [hj]; exact id)
  | @lockWrite j src i hj hl =>
    have hg : Goes j (.write src i) s _ := goes_same (u := { s with lock := some j }) rfl rfl rfl
    exact hg.justified h rfl rfl False.elim False.elim (by rw [hj]; exact id) (by rw [hj]; exact id)
  | @lockRead j n hj hl =>
    have hg : Goes j (.read n) s _ := goes_same (u := { s with lock := some j }) rfl rfl rfl
    exact hg.justified h rfl rfl False.elim False.elim (by rw [hj]; exact id) (by rw [hj]; exact id)
  | stopWrite hj hi hk => exact stopWrite_justified h hh hj hi hk hstr
  | @sleepWrite j src i killed fault hj hk hf =>
    have hg : Goes j (.writeSleep src i) s _ := goes_wakeReaders
    rw [not_or, Bool.not_eq_false] at hk
    exact ⟨fun k hr => (wakeReaders_awake id k hr).elim,
      hg.writer h rfl rfl (fun _ => ⟨hf, hk.1⟩) (by rw [hj]; exact id)⟩
  | @endWrite j src i killed fault hj hk =>
    have hg : Goes j .out s _ := goes_wakeReaders
    exact ⟨fun k hr => (wakeReaders_awake id k hr).elim,
      hg.writer h rfl rfl False.elim (by rw [hj]; exact id)⟩
  | @put j src i killed fault hj hk hf =>
    have hg : Goes j (.write src (i + 1)) s _ := goes_same (u := s.put (src.getD i 0)) rfl rfl rfl
    refine ⟨fun k _ => .inr ⟨j, by rw [hg.self]; trivial⟩, fun k hw => ?_⟩
    -- the pipe was not full, so no writer was asleep
    by_cases hkj : k = j
    · rw [hkj, hg.self] at hw
      exact hw.elim
    · exact (h.no_writer hh hf (by rw [hj]; trivial) k ((hg.other k hkj).writer hw)).elim
  | @stopRead j n killed fault hj =>
    have hg : Goes j .out s _ := goes_same (u := s.release) rfl rfl rfl
    exact hg.justified h rfl rfl False.elim False.elim (by rw [hj]; exact id) (by rw [hj]; exact id)
  | @sleepRead j n killed fault hj he =>
    have hg : Goes j (.readSleep n) s _ := goes_same (u := s.release) rfl rfl rfl
    exact hg.justified h rfl rfl (fun _ => he) False.elim (by rw [hj]; exact id)
      (by rw [hj]; exact id)
  | @copy j n killed fault hj =>
    have hg : Goes j (.copy n 0) s _ := goes_same (u := s) rfl rfl rfl
    exact hg.justified h rfl rfl False.elim False.elim (by rw [hj]; exact id) (by rw [hj]; exact id)
  | @lose j n i killed fault hj hne =>
    have hg : Goes j .out s _ := goes_wakeWriters (u := s.pop) rfl rfl rfl
    refine ⟨fun k hr => ?_, fun k hw => (wakeWriters_awake id k hw).elim⟩
    -- the pipe was not empty, so no reader was asleep
    by_cases hkj : k = j
    · rw [hkj, hg.self] at hr
      exact hr.elim
    · exact (h.no_reader hh hne (by rw [hj]; trivial) k ((hg.other k hkj).reader hr)).elim
  | @take j n i killed fault hj hne =>
    have hg : Goes j (.copy n (i + 1)) s _ := goes_same (u := s.pop) rfl rfl rfl
    refine ⟨fun k hr => ?_, fun k _ => .inr ⟨j, by rw [hg.self]; trivial⟩⟩
    by_cases hkj : k = j
    · rw [hkj, hg.self] at hr
      exact hr.elim
    · exact (h.no_reader hh hne (by rw [hj]; trivial) k ((hg.other k hkj).reader hr)).elim
  | @endRead j n i killed fault hj =>
    have hg : Goes j .out s _ := goes_wakeWriters (u := s) rfl rfl rfl
    exact ⟨hg.reader h rfl rfl False.elim (by rw [hj]; exact id),
      fun k hw => (wakeWriters_awake id k hw).elim⟩
  | @killWrite j src i hj =>
    have hg : Goes j (.writeWait src i) s _ := goes_same (u := s) rfl rfl rfl
    exact hg.justified h rfl rfl False.elim False.elim (by rw [hj]; exact id) (by rw [hj]; exact id)
  | @killRead j n hj =>
    have hg : Goes j (.readWait n) s _ := goes_same (u := s) rfl rfl rfl
    exact hg.justified h rfl rfl False.elim False.elim (by rw [hj]; exact id) (by rw [hj]; exact id)
  | @close j writable hl =>
    cases writable with
    | true =>
      refine ⟨fun k hr => (wakeReader_awake _ hr).elim, fun k hw => ?_⟩
      rcases h.writer k ((stays_wakeReader _).writer hw) with he | ⟨i, hi⟩
      · exact .inl he
      · exact .inr ⟨i, (stays_wakeReader _).draining.2 hi⟩
    | false =>
      refine ⟨fun k hr => ?_, fun k hw => (wakeWriter_awake _ hw).elim⟩
      rcases h.reader k ((stays_wakeWriter _).reader hr) with he | ⟨i, hi⟩
      · exact .inl he
      · exact .inr ⟨i, (stays_wakeWriter _).filling.2 hi⟩

/-- A writer that has been killed leaves readers asleep beside bytes. -/
theorem Strands.not_justified (hh : Held s) (hstr : s.Strands a) (hn : s.step a = some t) :
    ¬t.Justified := by
  obtain ⟨j, op⟩ := a
  unfold Strands at hstr
  dsimp only at hstr
  split at hstr <;> [rename_i fault src i hj; exact hstr.elim]
  obtain ⟨hi, hne, k, hk⟩ := hstr
  unfold step at hn
  dsimp only at hn
  rw [hj] at hn
  change some (s.writeRound j src i true fault) = some t at hn
  unfold writeRound at hn
  rw [if_pos hi, if_pos (Or.inr rfl)] at hn
  obtain rfl := Option.some.inj hn
  intro h
  have hkj : k ≠ j := by
    rintro rfl
    rw [hj] at hk
    exact hk
  rcases h.reader k (by rw [goto_ne hkj]; exact hk) with ⟨he, -⟩ | ⟨m, hm⟩
  · exact hne he
  · have hmj : m ≠ j := by
      rintro rfl
      rw [goto_self] at hm
      exact hm
    rw [goto_ne hmj] at hm
    exact hmj (hh.eq_of_inside (filling_inside hm) (by rw [hj]; trivial))

end Pipe

open Pipe

variable {s : Pipe} {tr : List PipeLabel}

/-- **First in, first out**: what was put into the pipe is what was taken out of it, and then what
it holds, which is at most `PIPESIZE` bytes. -/
theorem pipe_fifo (h : pipeMachine.Path always .pipealloc tr s) :
    pipeMachine.outputs Pipe.stored .pipealloc tr =
        pipeMachine.outputs Pipe.taken .pipealloc tr ++ s.contents ∧
      s.contents.length ≤ pipesize := by
  have hs : pipesize = 512 := rfl
  rw [contents_length, hs]
  induction h with
  | nil => exact ⟨rfl, Nat.zero_le _⟩
  | snoc hp _ hn ih =>
    obtain ⟨hbytes, hroom⟩ := ih
    have hm := step_moves hroom hn
    refine ⟨?_, hm.room hroom⟩
    rw [outputs_snoc hp, outputs_snoc hp, hbytes, List.append_assoc, hm.bytes, List.append_assoc]

/-- A reader goes to sleep, is woken by a writer of two bytes, and takes one of them. -/
def wokenReader : List PipeLabel :=
  [⟨1, .piperead 1⟩, ⟨1, .acquire⟩, ⟨1, .round false false⟩,
   ⟨2, .pipewrite [7, 9]⟩, ⟨2, .acquire⟩, ⟨2, .round false false⟩, ⟨2, .round false false⟩,
   ⟨2, .round false false⟩,
   ⟨1, .acquire⟩, ⟨1, .round false false⟩, ⟨1, .round false false⟩]

theorem pipe_fifo_wokenReader :
    let t := (pipeMachine.run .pipealloc wokenReader).getD .pipealloc
    pipeMachine.outputs Pipe.stored .pipealloc wokenReader =
        pipeMachine.outputs Pipe.taken .pipealloc wokenReader ++ t.contents ∧
      t.contents.length ≤ pipesize :=
  pipe_fifo (path_getD (by decide +kernel))

example : pipeMachine.outputs Pipe.taken .pipealloc wokenReader = [7] := by decide +kernel

/-- **Nobody sleeps for nothing**: a reader asleep finds the pipe empty and a writer asleep finds it
full, with the other end open, or a process in its loop is about to wake it; and a step breaks this
if and only if a writer that has been killed returns beside bytes and a reader asleep. -/
theorem pipe_sleepers
    (h : pipeMachine.Path (fun s a => s.UsedWell a ∧ ¬s.Strands a) .pipealloc tr s) :
    s.Justified ∧
      ∀ a t, s.UsedWell a → pipeMachine.next s a = some t → (t.Justified ↔ ¬s.Strands a) := by
  have key : Held s ∧ s.Justified := by
    refine h.inv (P := fun s => Held s ∧ s.Justified) ?_ ⟨⟨?_, ?_, ?_⟩, ?_, ?_⟩
    · rintro u a v ⟨hh, hj⟩ ⟨hok, hstr⟩ hn
      exact ⟨held_step hh hok hn, justified_step hj hh hstr hn⟩
    · exact fun _ => ⟨False.elim, fun he => absurd he.symm (Option.some_ne_none _)⟩
    · exact fun _ => False.elim
    · exact fun _ => False.elim
    · exact fun _ => False.elim
    · exact fun _ => False.elim
  obtain ⟨hh, hj⟩ := key
  refine ⟨hj, fun a t hok hn => ⟨fun ht hstr => hstr.not_justified hh hn ht, fun hstr => ?_⟩⟩
  exact justified_step hj hh hstr hn

/-- A writer puts a byte beside a reader asleep. -/
def putBeside : List PipeLabel :=
  [⟨1, .piperead 1⟩, ⟨1, .acquire⟩, ⟨1, .round false false⟩,
   ⟨2, .pipewrite [7, 9]⟩, ⟨2, .acquire⟩, ⟨2, .round false false⟩]

/-- Killed there, the writer leaves the reader asleep. -/
theorem pipe_sleepers_putBeside :
    let s := (pipeMachine.runOk (fun s a => s.UsedWell a ∧ ¬s.Strands a) .pipealloc
      putBeside).getD .pipealloc
    let a : PipeLabel := ⟨2, .round true false⟩
    ¬((pipeMachine.next s a).getD .pipealloc).Justified := by
  intro s a ht
  have hp : pipeMachine.Path (fun s a => s.UsedWell a ∧ ¬s.Strands a) .pipealloc putBeside s :=
    pathOk_getD (by decide +kernel)
  have hn : pipeMachine.next s a = some ((pipeMachine.next s a).getD .pipealloc) :=
    next_getD (by decide +kernel)
  refine ((pipe_sleepers hp).2 a _ trivial hn).1 ht ?_
  decide +kernel

end AgentOS
