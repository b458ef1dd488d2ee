import Dispatch.Worker.Crash

/-!
# A worker's host

The life of a journal on one host. A process opens the journal and writes to
it; it ends where it likes, in the middle of an operation too, and the host may
lose its power then. `Host.acked` is the last payload of a record that was
acknowledged, and `Host.tried` are those of later writes nobody heard of again:
neither is read by any step.

`Host.Sound` is what holds throughout. The disk guards records that are within
the limits and that the acknowledgements allow, and while a process has the
journal open and has seen no error, these are settled.
-/

namespace Dispatch

open Relation Arena

variable {E : Prop} {directory : Directory}

/-! ## Calls that work -/

/-- What a call does when it succeeds whenever it can. -/
def Sys.Works (c : Sys) (d : JournalDisk) (r : c.Answer) (d' : JournalDisk) : Prop :=
  c.Does d r d' ∧ (c.Can d → r ≠ none)

/-- Calls that may fail. -/
def anyCalls : Behaviour True := ⟨Sys.Does, fun _ _ _ _ h => h, fun _ _ _ _ _ => trivial⟩

/-- Calls that fail only when they must. -/
def workingCalls : Behaviour False :=
  ⟨Sys.Works, fun _ _ _ _ h => h.1, fun _ _ _ h hcan => h.2 hcan rfl⟩

theorem Sys.exists_works (c : Sys) (d : JournalDisk) : ∃ r d', c.Works d r d' := by
  have hsome : ∀ {α : Type} (x : α), some x ≠ none := fun x => Option.some_ne_none x
  cases c with
  | root => exact ⟨some (), d, rfl, fun _ => hsome _⟩
  | stat name => exact ⟨some _, d, ⟨rfl, fun _ h => (Option.some.inj h).symm⟩, fun _ => hsome _⟩
  | list =>
    by_cases h : ∃ entries, d.Lists entries
    · obtain ⟨entries, hlists⟩ := h
      exact ⟨some entries, d, ⟨rfl, fun _ h => Option.some.inj h ▸ hlists⟩, fun _ => hsome _⟩
    · exact ⟨none, d, ⟨rfl, nofun⟩, fun hcan => absurd hcan h⟩
  | read name => exact ⟨some _, d, ⟨rfl, fun _ h => (Option.some.inj h).symm⟩, fun _ => hsome _⟩
  | createNew name =>
    by_cases h : d.visible name = none
    · exact ⟨some d.next, _, .inl ⟨d.next, rfl, h, rfl, rfl⟩, fun _ => hsome _⟩
    · exact ⟨none, d, .inr ⟨rfl, .inl rfl⟩, fun hcan => absurd hcan h⟩
  | openLock =>
    cases h : d.visible .lock with
    | some i => exact ⟨some i, d, .inl ⟨i, rfl, .inl ⟨h, rfl⟩⟩, fun _ => hsome _⟩
    | none => exact ⟨some d.next, _, .inl ⟨d.next, rfl, .inr ⟨h, rfl, rfl⟩⟩, fun _ => hsome _⟩
  | append i bytes => exact ⟨some (), _, .inl ⟨rfl, rfl⟩, fun _ => hsome _⟩
  | syncFile i => exact ⟨some (), _, .inl ⟨rfl, rfl⟩, fun _ => hsome _⟩
  | syncDirectory => exact ⟨some (), _, .inl ⟨rfl, rfl⟩, fun _ => hsome _⟩
  | rename source target => exact ⟨some (), _, .inl ⟨rfl, rfl⟩, fun _ => hsome _⟩
  | remove name => exact ⟨some (), _, .inl ⟨rfl, rfl⟩, fun _ => hsome _⟩

/-! ## The machine -/

/-- **A host**: its disk, the journal of the process that runs, and what was
written. -/
structure Host where
  disk : JournalDisk
  process : Option Directory
  acked : FileName → Option Bytes
  tried : FileName → List Bytes

/-- An empty directory. -/
def Host.empty : Host where
  disk := ⟨fun _ => ⟨[], true⟩, 0, fun _ => none, []⟩
  process := none
  acked _ := none
  tried _ := []

/-- A write that was not acknowledged. -/
def Host.doubt (h : Host) (name : FileName) (payload : Bytes) : FileName → List Bytes :=
  Function.update h.tried name (payload :: h.tried name)

/-- What is written once the journal is open. -/
def FileName.Recorded (worker : Bytes) (name : FileName) (payload : Bytes) : Prop :=
  name.Writable worker payload ∧ name ≠ .identity

/-- **One step of a host.** -/
inductive Host.Step (D : Digest) (worker : Bytes) (limits : JournalLimits) : Host → Host → Prop
  | opened {h : Host} {directory : Directory} {d : JournalDisk} (closed : h.process = none)
      (ran : (openJournal D worker limits).run.Ran Sys.Does h.disk (.ok directory) d) :
      Step D worker limits h { h with disk := d, process := some directory }
  | unopened {h : Host} {e : JournalError} {d : JournalDisk} (closed : h.process = none)
      (ran : (openJournal D worker limits).run.Ran Sys.Does h.disk (.error e) d) :
      Step D worker limits h { h with disk := d }
  | wrote {h : Host} {directory directory' : Directory} {name : FileName} {payload : Bytes}
      {d : JournalDisk} (running : h.process = some directory)
      (recorded : name.Recorded worker payload)
      (ran : (directory.write D name payload).Ran Sys.Does h.disk (.ok (), directory') d) :
      Step D worker limits h
        { disk := d
          process := some directory'
          acked := Function.update h.acked name (some payload)
          tried := Function.update h.tried name [] }
  | failed {h : Host} {directory directory' : Directory} {name : FileName} {payload : Bytes}
      {e : JournalError} {d : JournalDisk} (running : h.process = some directory)
      (recorded : name.Recorded worker payload)
      (ran : (directory.write D name payload).Ran Sys.Does h.disk (.error e, directory') d) :
      Step D worker limits h
        { h with
          disk := d
          process := some directory'
          tried := if directory' = directory then h.tried else h.doubt name payload }
  /-- A process ends while it opens the journal, or while it writes, or between. -/
  | cutOpening {h : Host} {d : JournalDisk} (closed : h.process = none)
      (cut : (openJournal D worker limits).run.Cut Sys.Does h.disk d) :
      Step D worker limits h { h with disk := d }
  | cutWriting {h : Host} {directory : Directory} {name : FileName} {payload : Bytes}
      {d : JournalDisk} (running : h.process = some directory)
      (recorded : name.Recorded worker payload)
      (cut : (directory.write D name payload).Cut Sys.Does h.disk d) :
      Step D worker limits h { h with disk := d, process := none, tried := h.doubt name payload }
  | exited {h : Host} : Step D worker limits h { h with process := none }
  | lostPower {h : Host} {d : JournalDisk} (closed : h.process = none) (crash : h.disk.Crash d) :
      Step D worker limits h { h with disk := d }

/-! ## What holds throughout -/

/-- **Records that the acknowledgements allow.** -/
def Told (acked : FileName → Option Bytes) (tried : FileName → List Bytes)
    (held : Table FileName Bytes) : Prop :=
  ∀ name, name ≠ .identity →
    held.lookup name = acked name ∨ ∃ payload ∈ tried name, held.lookup name = some payload

/-- **The invariant of a host**: what the disk may show after a crash is allowed by
the acknowledgements, and what an open journal holds is on the disk. -/
structure Host.Sound (D : Digest) (worker : Bytes) (limits : JournalLimits) (h : Host) : Prop where
  guards : Guards D (fun held => Kept worker limits held ∧ Told h.acked h.tried held) h.disk
  running : ∀ directory, h.process = some directory → directory.limits = limits ∧
    (directory.poisoned = false → ∃ held, Quiet D held h.disk ∧ Kept worker limits held ∧
      Told h.acked h.tried held ∧ held.lookup .identity ≠ none)

section

variable {D : Digest} {worker : Bytes} {limits : JournalLimits} {h h' : Host}
  {held : Table FileName Bytes} {name : FileName} {payload : Bytes}

/-- The name of the worker is written by whoever opens the journal first. -/
theorem Told.identity {acked : FileName → Option Bytes} {tried : FileName → List Bytes}
    (htold : Told acked tried held) : Told acked tried (AList.insert .identity worker held) := by
  intro n hn
  rw [AList.lookup_insert_ne hn]
  exact htold n hn

theorem Kept.identity (hkept : Kept worker limits held) :
    Kept worker limits (AList.insert .identity worker held) :=
  hkept.insert_other rfl (.inl rfl) nofun

/-- What was allowed before a write is allowed after it. -/
theorem Told.doubt (htold : Told h.acked h.tried held) (name : FileName) (payload : Bytes) :
    Told h.acked (h.doubt name payload) held := by
  intro n hn
  obtain hacked | ⟨p, hp, hlookup⟩ := htold n hn
  · exact .inl hacked
  · refine .inr ⟨p, ?_, hlookup⟩
    by_cases heq : n = name
    · subst heq
      rw [Host.doubt, Function.update_self]
      exact List.mem_cons_of_mem _ hp
    · rw [Host.doubt, Function.update_of_ne heq]
      exact hp

theorem Told.between (htold : Told h.acked h.tried held) {x : Table FileName Bytes}
    (hx : Between worker limits held name payload x) : Told h.acked (h.doubt name payload) x := by
  obtain rfl | ⟨rfl, -⟩ := hx
  · exact htold.doubt name payload
  intro n hn
  by_cases heq : n = name
  · subst heq
    refine .inr ⟨payload, ?_, AList.lookup_insert _⟩
    rw [Host.doubt, Function.update_self]
    exact List.mem_cons_self
  · rw [AList.lookup_insert_ne heq]
    exact htold.doubt name payload n hn

theorem Told.wrote (htold : Told h.acked h.tried held) (name : FileName) (payload : Bytes) :
    Told (Function.update h.acked name (some payload)) (Function.update h.tried name [])
      (AList.insert name payload held) := by
  intro n hn
  by_cases heq : n = name
  · subst heq
    exact .inl (by rw [AList.lookup_insert, Function.update_self])
  · rw [AList.lookup_insert_ne heq, Function.update_of_ne heq, Function.update_of_ne heq]
    exact htold n hn

/-- What becomes of an attempt to open the journal. -/
theorem Host.Sound.opening (B : Behaviour E) (hsound : h.Sound D worker limits)
    (hfits : Fits worker limits) :
    B.wp (Guards D (fun held => Kept worker limits held ∧ Told h.acked h.tried held))
      (Ends (fun directory d => directory = ⟨limits, false⟩ ∧ ∃ held,
          (Kept worker limits held ∧ Told h.acked h.tried held) ∧ held.lookup .identity ≠ none ∧
            Quiet D held d)
        (fun e d => e = .io ∧ E ∧
          Guards D (fun held => Kept worker limits held ∧ Told h.acked h.tried held) d))
      (openJournal D worker limits) h.disk :=
  wp_openJournal hsound.guards (fun _ hheld => hheld.1)
    (fun _ hheld => ⟨hheld.1.identity, hheld.2.identity⟩) hfits

/-- What becomes of a write. -/
theorem Host.Sound.writing (B : Behaviour E) (hsound : h.Sound D worker limits)
    (hfits : Fits worker limits) (hrunning : h.process = some directory)
    (hhealthy : directory.poisoned = false) (hrecorded : name.Recorded worker payload) :
    ∃ held, Quiet D held h.disk ∧ Kept worker limits held ∧ Told h.acked h.tried held ∧
      held.lookup .identity ≠ none ∧
      Arena.wp (alone B.does) (Guards D (Between worker limits held name payload))
        (Wrote D worker E directory held name payload h.disk) (directory.write D name payload)
        h.disk := by
  obtain ⟨hlimits, hopen⟩ := hsound.running directory hrunning
  obtain ⟨held, hquiet, hkept, htold, hfounded⟩ := hopen hhealthy
  subst hlimits
  exact ⟨held, hquiet, hkept, htold, hfounded, wp_write hhealthy ⟨hquiet, hkept, hfits⟩
    hrecorded.1.isRecord hrecorded.1.takes (.inr hfounded)⟩

/-- A write that is not too long is done when no call fails. -/
theorem Host.Sound.writes (hsound : h.Sound D worker limits) (hfits : Fits worker limits)
    (hrunning : h.process = some directory) (hhealthy : directory.poisoned = false)
    (hrecorded : name.Recorded worker payload) (hroom : ¬ name.MayExceed payload) :
    ∃ d, (directory.write D name payload).Ran Sys.Works h.disk (.ok (), directory) d := by
  obtain ⟨held, -, -, -, -, hwrite⟩ := hsound.writing workingCalls hfits hrunning hhealthy hrecorded
  obtain ⟨r, d, hran⟩ :=
    Prog.exists_ran Sys.exists_works (directory.write D name payload) h.disk
  cases wp_ran hwrite hran with
  | done => exact ⟨d, hran⟩
  | refused hwhy => exact (hwhy.elim (·.2) fun hlong => hroom hlong.2).elim
  | poisoned hE => exact hE.elim

/-- The records between two writes are those of the host. -/
theorem guards_between (hkept : Kept worker limits held) (htold : Told h.acked h.tried held)
    {d : JournalDisk} (hguards : Guards D (Between worker limits held name payload) d) :
    Guards D (fun x => Kept worker limits x ∧ Told h.acked (h.doubt name payload) x) d := by
  refine hguards.mono fun x hx => ⟨?_, htold.between hx⟩
  obtain rfl | ⟨rfl, hinsert⟩ := hx
  · exact hkept
  · exact hinsert

/-- **Every step keeps the journal sound.** -/
theorem Host.Step.sound (hstep : Host.Step D worker limits h h') (hfits : Fits worker limits)
    (hsound : h.Sound D worker limits) : h'.Sound D worker limits := by
  cases hstep with
  | opened hclosed hran =>
    obtain ⟨rfl, held, hheld, hfounded, hquiet⟩ := wp_ran (hsound.opening anyCalls hfits) hran
    refine ⟨hquiet.guards hheld, fun _ hprocess => ?_⟩
    obtain rfl := Option.some.inj hprocess
    exact ⟨rfl, fun _ => ⟨held, hquiet, hheld.1, hheld.2, hfounded⟩⟩
  | unopened hclosed hran =>
    obtain ⟨-, -, hguards⟩ := wp_ran (hsound.opening anyCalls hfits) hran
    exact ⟨hguards, fun _ hprocess => absurd (hclosed.symm.trans hprocess) nofun⟩
  | @wrote directory directory' name payload d hrunning hrecorded hran =>
    cases hpoisoned : directory.poisoned with
    | true =>
      rw [write_of_poisoned D hpoisoned] at hran
      nomatch hran
    | false =>
      obtain ⟨held, -, -, htold, hfounded, hwrite⟩ :=
        hsound.writing anyCalls hfits hrunning hpoisoned hrecorded
      cases wp_ran hwrite hran with
      | done hkept hquiet =>
        have hlimits := (hsound.running directory hrunning).1
        rw [hlimits] at hkept
        refine ⟨hquiet.guards ⟨hkept, htold.wrote name payload⟩, fun _ hprocess => ?_⟩
        obtain rfl := Option.some.inj hprocess
        refine ⟨hlimits, fun _ => ⟨_, hquiet, hkept, htold.wrote name payload, ?_⟩⟩
        rwa [AList.lookup_insert_ne (Ne.symm hrecorded.2)]
  | @failed directory directory' name payload e d hrunning hrecorded hran =>
    cases hpoisoned : directory.poisoned with
    | true =>
      rw [write_of_poisoned D hpoisoned] at hran
      cases hran
      rw [if_pos rfl]
      exact ⟨hsound.guards, fun _ hprocess => hsound.running _ (hrunning.trans hprocess)⟩
    | false =>
      obtain ⟨held, -, hkept, htold, hfounded, hwrite⟩ :=
        hsound.writing anyCalls hfits hrunning hpoisoned hrecorded
      cases wp_ran hwrite hran with
      | refused hwhy =>
        rw [if_pos rfl]
        exact ⟨hsound.guards, fun _ hprocess => hsound.running _ (hrunning.trans hprocess)⟩
      | poisoned _ hguards =>
        have hlimits := (hsound.running directory hrunning).1
        have hne : { directory with poisoned := true } ≠ directory := fun heq => by
          rw [← heq] at hpoisoned
          exact absurd hpoisoned nofun
        rw [if_neg hne]
        refine ⟨guards_between hkept htold (hlimits ▸ hguards), fun _ hprocess => ?_⟩
        obtain rfl := Option.some.inj hprocess
        exact ⟨hlimits, nofun⟩
  | cutOpening hclosed hcut =>
    exact ⟨wp_cut (hsound.opening anyCalls hfits) hsound.guards hcut,
      fun _ hprocess => absurd (hclosed.symm.trans hprocess) nofun⟩
  | @cutWriting directory name payload d hrunning hrecorded hcut =>
    refine ⟨?_, nofun⟩
    cases hpoisoned : directory.poisoned with
    | true =>
      rw [write_of_poisoned D hpoisoned] at hcut
      cases hcut
      exact hsound.guards.mono fun x hx => ⟨hx.1, hx.2.doubt name payload⟩
    | false =>
      obtain ⟨held, hquiet, hkept, htold, -, hwrite⟩ :=
        hsound.writing anyCalls hfits hrunning hpoisoned hrecorded
      exact guards_between hkept htold (wp_cut hwrite (hquiet.guards (.inl rfl)) hcut)
  | exited => exact ⟨hsound.guards, nofun⟩
  | lostPower hclosed hcrash =>
    exact ⟨hsound.guards.crash hcrash,
      fun _ hprocess => absurd (hclosed.symm.trans hprocess) nofun⟩

theorem Kept.empty : Kept worker limits ∅ :=
  ⟨nofun, fun _ _ => rfl, Nat.zero_le _, Nat.zero_le _⟩

theorem guards_empty {H : Table FileName Bytes → Prop} (h : H ∅) : Guards D H Host.empty.disk :=
  ⟨0, le_refl _, Disk.safe_of_shows ⟨fun _ _ => rfl, nofun⟩ ⟨∅, h, rfl⟩ rfl⟩

theorem Host.empty_sound : Host.empty.Sound D worker limits :=
  ⟨guards_empty ⟨.empty, fun _ _ => .inl rfl⟩, nofun⟩

/-- **The journal of every host is sound.** -/
theorem Host.reach_sound (hfits : Fits worker limits)
    (hreach : ReflTransGen (Host.Step D worker limits) Host.empty h) : h.Sound D worker limits := by
  induction hreach with
  | refl => exact Host.empty_sound
  | tail _ hstep ih => exact hstep.sound hfits ih

/-! ## What the journal promises -/

/-- The limits hold of whatever is on the disk. -/
theorem Host.Sound.within (hsound : h.Sound D worker limits) {entries : List (FileName × ℕ)}
    (hlists : h.disk.Lists entries) : (attemptsIn entries).length ≤ limits.maxAttempts ∧
      ((attemptsIn entries).map Prod.snd).sum ≤ limits.maxBytes := by
  obtain ⟨bound, -, hsafe⟩ := hsound.guards
  obtain ⟨_, ⟨held, ⟨hkept, -⟩, rfl⟩, hshows⟩ := hsafe.visible
  have hperm := attemptsIn_lists hshows hlists
  rw [hperm.length_eq, (hperm.map Prod.snd).sum_eq]
  exact ⟨hkept.count, hkept.bytes⟩

/-- Records are read back as the acknowledgements allow. -/
theorem Host.Sound.reading (B : Behaviour E) (hsound : h.Sound D worker limits)
    (hfits : Fits worker limits) (hrunning : h.process = some directory)
    (hhealthy : directory.poisoned = false) (hname : name.IsRecord) (hidentity : name ≠ .identity) :
    B.wp (fun _ => True) (Ends
      (fun value d => d = h.disk ∧
        (value = h.acked name ∨ ∃ payload ∈ h.tried name, value = some payload))
      (fun e d => d = h.disk ∧ e = .io ∧ E)) (directory.read D name) h.disk := by
  obtain ⟨-, hopen⟩ := hsound.running directory hrunning
  obtain ⟨held, hquiet, hkept, htold, -⟩ := hopen hhealthy
  exact wp_read hhealthy ⟨hquiet, hkept, hfits⟩ hname trivial ⟨rfl, htold name hidentity⟩
    fun hE => ⟨rfl, rfl, hE⟩

/-- **A write that was cut** leaves each record as it was, or its own as it
should be. -/
theorem Host.Sound.cut (hsound : h.Sound D worker limits) (hfits : Fits worker limits)
    (hrunning : h.process = some directory)
    (hhealthy : directory.poisoned = false) (hrecorded : name.Recorded worker payload)
    {d₁ d₂ d₃ : JournalDisk} (hcut : (directory.write D name payload).Cut Sys.Does h.disk d₁)
    (hpower : d₂ = d₁ ∨ d₁.Crash d₂) {directory' : Directory}
    (hran : (openJournal D worker limits).run.Ran Sys.Does d₂ (.ok directory') d₃) {n : FileName}
    (hn : n.IsRecord) :
    d₃.file n = h.disk.file n ∨ n = name ∧ d₃.file n = some (frame D payload) := by
  obtain ⟨held, hquiet, hkept, -, hfounded, hwrite⟩ :=
    hsound.writing anyCalls hfits hrunning hhealthy hrecorded
  -- what the next process finds differs from `held` in the record written only
  have hguards : Guards D (fun x => Kept worker limits x ∧
      ∀ n, x.lookup n = held.lookup n ∨ n = name ∧ x.lookup n = some payload) d₁ := by
    refine (wp_cut hwrite (hquiet.guards (.inl rfl)) hcut).mono fun x hx => ?_
    obtain rfl | ⟨rfl, hinsert⟩ := hx
    · exact ⟨hkept, fun n => .inl rfl⟩
    · refine ⟨hinsert, fun n => ?_⟩
      by_cases heq : n = name
      · subst heq
        exact .inr ⟨rfl, AList.lookup_insert _⟩
      · exact .inl (AList.lookup_insert_ne heq)
  have hguards₂ := hpower.elim (fun heq => heq ▸ hguards) hguards.crash
  have hidentity : held.lookup .identity = some worker := by
    obtain ⟨saved, hsaved⟩ := Option.ne_none_iff_exists'.mp hfounded
    rw [hsaved, show saved = worker from hkept.takes _ _ hsaved]
  have hopening := wp_openJournal (B := anyCalls) hguards₂ (fun _ hx => hx.1) (fun x hx => by
    refine ⟨hx.1.identity, fun n => ?_⟩
    by_cases heq : n = .identity
    · subst heq
      exact .inl ((AList.lookup_insert _).trans hidentity.symm)
    · rw [AList.lookup_insert_ne heq]
      exact hx.2 n) hfits
  obtain ⟨-, x, hx, -, hquiet'⟩ := wp_ran hopening hran
  have hfile : h.disk.file n = (held.lookup n).map (frame D) := hquiet.shows.bytes n hn
  have hfile' : d₃.file n = (x.lookup n).map (frame D) := hquiet'.shows.bytes n hn
  rw [hfile, hfile']
  obtain hsame | ⟨rfl, hnew⟩ := hx.2 n
  · exact .inl (by rw [hsame])
  · exact .inr ⟨rfl, by rw [hnew]; rfl⟩

/-- **The journal survives crashes.** On every host, after any writes, with
processes that end and power that is lost at any moment:

* the journal can be opened again, and a process that fails to do so has seen an
  error of a call;
* a record is read back as the payload that was acknowledged last, or as one
  whose write was cut or failed since, and as a whole;
* a write that is cut anywhere leaves each record as it was, or its own as the
  new payload;
* after an error of a write nothing has changed, or the journal takes no more
  writes from this process;
* the limits hold. -/
theorem journal_crash_atomic (D : Digest) {worker : Bytes} {limits : JournalLimits}
    (hfits : Fits worker limits) {h : Host}
    (hreach : ReflTransGen (Host.Step D worker limits) Host.empty h) :
    (h.process = none →
      (∀ r d, (openJournal D worker limits).run.Ran Sys.Does h.disk r d →
        r = .ok ⟨limits, false⟩ ∨ r = .error .io) ∧
      (∀ r d, (openJournal D worker limits).run.Ran Sys.Works h.disk r d →
      r = .ok ⟨limits, false⟩) ∧
      ∃ d, (openJournal D worker limits).run.Ran Sys.Works h.disk (.ok ⟨limits, false⟩) d) ∧
    (∀ directory, h.process = some directory → directory.poisoned = false →
      (∀ name, name.IsRecord → name ≠ .identity →
        (∀ r d, (directory.read D name).run.Ran Sys.Does h.disk r d → r = .error .io ∨
          r = .ok (h.acked name) ∨ ∃ payload ∈ h.tried name, r = .ok (some payload)) ∧
        ∃ value d, (directory.read D name).run.Ran Sys.Works h.disk (.ok value) d) ∧
      ∀ name payload, name.Recorded worker payload →
        (∀ d₁ d₂ d₃ directory', (directory.write D name payload).Cut Sys.Does h.disk d₁ →
          (d₂ = d₁ ∨ d₁.Crash d₂) →
          (openJournal D worker limits).run.Ran Sys.Does d₂ (.ok directory') d₃ →
          ∀ n, n.IsRecord →
            d₃.file n = h.disk.file n ∨ n = name ∧ d₃.file n = some (frame D payload)) ∧
        ∀ e directory' d,
          (directory.write D name payload).Ran Sys.Does h.disk (.error e, directory') d →
            d = h.disk ∧ directory' = directory ∨ directory'.poisoned = true) ∧
    (∀ directory, h.process = some directory → directory.poisoned = true →
      ∀ name payload r d, (directory.write D name payload).Ran Sys.Does h.disk r d →
        r = (.error .poisoned, directory) ∧ d = h.disk) ∧
    ∀ entries, h.disk.Lists entries → (attemptsIn entries).length ≤ limits.maxAttempts ∧
      ((attemptsIn entries).map Prod.snd).sum ≤ limits.maxBytes := by
  have hsound := Host.reach_sound hfits hreach
  refine ⟨fun _ => ?_, fun directory hrunning hhealthy => ⟨fun name hname hidentity => ⟨?_, ?_⟩,
    fun name payload hrecorded => ⟨?_, ?_⟩⟩, fun directory _ hpoisoned name payload r d hran => ?_,
    fun entries => hsound.within⟩
  · have hworks : ∀ r d, (openJournal D worker limits).run.Ran Sys.Works h.disk r d →
        r = .ok ⟨limits, false⟩ := fun r d hran => by
      have hends := wp_ran (hsound.opening workingCalls hfits) hran
      cases r with
      | ok directory => rw [hends.1]
      | error e => exact hends.2.1.elim
    refine ⟨fun r d hran => ?_, hworks, ?_⟩
    · have hends := wp_ran (hsound.opening anyCalls hfits) hran
      cases r with
      | ok directory => exact .inl (by rw [hends.1])
      | error e => exact .inr (by rw [hends.1])
    · obtain ⟨r, d, hran⟩ :=
        Prog.exists_ran Sys.exists_works (openJournal D worker limits).run h.disk
      exact ⟨d, hworks r d hran ▸ hran⟩
  · intro r d hran
    have hends := wp_ran (hsound.reading anyCalls hfits hrunning hhealthy hname hidentity) hran
    cases r with
    | error e => exact .inl (by rw [hends.2.1])
    | ok value =>
      obtain ⟨-, rfl | ⟨payload, hmem, rfl⟩⟩ := hends
      · exact .inr (.inl rfl)
      · exact .inr (.inr ⟨payload, hmem, rfl⟩)
  · obtain ⟨r, d, hran⟩ := Prog.exists_ran Sys.exists_works (directory.read D name).run h.disk
    have hends := wp_ran (hsound.reading workingCalls hfits hrunning hhealthy hname hidentity) hran
    cases r with
    | error e => exact hends.2.2.elim
    | ok value => exact ⟨value, d, hran⟩
  · intro d₁ d₂ d₃ directory' hcut hpower hran n hn
    exact hsound.cut hfits hrunning hhealthy hrecorded hcut hpower hran hn
  · intro e directory' d hran
    obtain ⟨held, -, -, -, -, hwrite⟩ := hsound.writing anyCalls hfits hrunning hhealthy hrecorded
    cases wp_ran hwrite hran with
    | refused => exact .inl ⟨rfl, rfl⟩
    | poisoned => exact .inr rfl
  · rw [write_of_poisoned D hpoisoned] at hran
    cases hran
    exact ⟨rfl, rfl⟩

end

/-- A digest that tells nothing apart. -/
def Sample.journalDigest : Digest := ⟨fun _ => List.replicate 32 0, fun _ => List.length_replicate⟩

/-- The name of a worker. -/
def Sample.workerName : Bytes := List.replicate 36 48

/-- **A journal after a crash.** A first session is written and a second write is
cut, the power is lost, and the journal that is opened again has one of the two. -/
theorem sample_journal_crash : ∃ h directory,
    ReflTransGen (Host.Step Sample.journalDigest Sample.workerName ⟨4, 65536⟩) Host.empty h ∧
    h.process = some directory ∧ h.acked .session = some [1] ∧ h.tried .session = [[2]] ∧
    ∃ value d,
      (directory.read Sample.journalDigest .session).run.Ran Sys.Works h.disk (.ok value) d ∧
      (value = some [1] ∨ value = some [2]) := by
  have hfits : Fits Sample.workerName ⟨4, 65536⟩ := by decide
  have hrecorded : ∀ b, FileName.Recorded Sample.workerName .session [b] := fun b =>
    ⟨show 1 ≤ maxSession by decide, nofun⟩
  have hroom : ∀ b, ¬ FileName.MayExceed .session [b] := fun b hlong =>
    hlong.elim (fun h => absurd (show maxPayload < 1 from h) (by decide)) nofun
  obtain ⟨d₁, hopen⟩ := ((journal_crash_atomic Sample.journalDigest hfits .refl).1 rfl).2.2
  have hopened := ReflTransGen.single (Host.Step.opened rfl (hopen.mono fun _ _ _ _ h => h.1))
  obtain ⟨d₂, hwrite⟩ := (Host.reach_sound hfits hopened).writes hfits rfl rfl (hrecorded 1)
    (hroom 1)
  have hwrote := hopened.tail (.wrote rfl (hrecorded 1) (hwrite.mono fun _ _ _ _ h => h.1))
  obtain ⟨d₃, hwrite'⟩ := (Host.reach_sound hfits hwrote).writes hfits rfl rfl (hrecorded 2)
    (hroom 2)
  have hcut := hwrote.tail (.cutWriting rfl (hrecorded 2) (hwrite'.mono fun _ _ _ _ h => h.1).cut)
  obtain ⟨d₄, hcrash⟩ := d₃.exists_crash
  have hlost := hcut.tail (.lostPower rfl hcrash)
  obtain ⟨d₅, hagain⟩ := ((journal_crash_atomic Sample.journalDigest hfits hlost).1 rfl).2.2
  have hreopened := hlost.tail (.opened rfl (hagain.mono fun _ _ _ _ h => h.1))
  obtain ⟨hread, value, d, hran⟩ := ((journal_crash_atomic Sample.journalDigest hfits
    hreopened).2.1 _ rfl rfl).1 .session ⟨nofun, nofun⟩ nofun
  refine ⟨_, _, hreopened, rfl, rfl, rfl, value, d, hran, ?_⟩
  obtain hio | hacked | ⟨payload, hpayload, htried⟩ := hread _ d (hran.mono fun _ _ _ _ h => h.1)
  · exact absurd hio nofun
  · exact .inl (Except.ok.inj hacked)
  · obtain rfl := List.mem_singleton.mp hpayload
    exact .inr (Except.ok.inj htried)

end Dispatch
