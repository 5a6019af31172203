import RtlSdr.Server.Averages
import RtlSdr.Server.Reader

/-!
# The FFT compute thread

Between two gaps the thread is a reader of the ring that feeds one unbroken stream of
samples to the hop loop. Every spectrum it publishes is therefore an average over a run of
blocks that were written one after the other.
-/
namespace RtlSdr

variable {F D : Type} [CFloat F] [CDouble D F]

/-- The samples of the blocks written during part of a run. -/
def samplesIn (t : List Obs) : List (UInt8 × UInt8) := (blocksOf t).flatMap samplesOf

/-- The bits of a spectrum averaged over `fft_accum` windows that lie in one part of the
history in which the ring's generation does not change. -/
def FftPlan.AverageOver (plan : FftPlan F) (t : List Obs) (power : List UInt32) : Prop :=
  ∃ before unbroken after first spectrum, t = before ++ unbroken ++ after ∧
    incrementsOf unbroken = 0 ∧
    (first + plan.accum) * plan.step ≤ (samplesIn unbroken).length ∧
    plan.average (plan.windows (samplesIn unbroken) first plan.accum) = some spectrum ∧
    power = spectrum.map CFloat.toBits

def Obs.isSpectrum : Obs → Bool
  | .spectrum _ _ _ => true
  | _ => false

/-- How many spectra were published. -/
def spectraOf (t : List Obs) : Nat := t.countP Obs.isSpectrum

@[simp] theorem spectraOf_append (t later : List Obs) :
    spectraOf (t ++ later) = spectraOf t + spectraOf later := by
  simp [spectraOf]

theorem spectraOf_part (observed : List Obs)
    (part : ∀ e ∈ observed, e.part ≠ .spectra ∨ e = .fftCursorTaken) : spectraOf observed = 0 := by
  rw [spectraOf, List.countP_eq_zero]
  intro e member
  cases e with
  | spectrum => simpa [Obs.part] using part _ member
  | _ => simp [Obs.isSpectrum]

variable {srv : Server F D} {observed t : List Obs} {cfg : Config F} {plan : FftPlan F}
  {input : List UInt8} {st : FftLocal F} {ring : Ring}

/-! ### The stream between two gaps -/

/-- What the thread has made of the blocks it read since it took its cursor: `consumed`
was written in an unbroken part of the history, `fed` is the part of its samples that the
hop loop has seen and `input` is the rest. -/
structure Gathering (plan : FftPlan F) (ring : Ring) (since : List Obs) (st : FftLocal F)
    (input : List UInt8) (unbroken later : List Obs) (consumed : List (List UInt8))
    (fed : List (UInt8 × UInt8)) (first : Nat) : Prop where
  history : since = unbroken ++ later
  reading : Reading ring st.cursor since consumed
  whole : incrementsOf unbroken = 0
  taken : consumed <+: blocksOf unbroken
  samples : consumed.flatMap samplesOf = fed ++ samplesOf input
  even : input.length % 2 = 0
  collected : Collected plan st fed first

/-- What was observed since the thread took its cursor for the last time. -/
def SinceCursor (t since : List Obs) : Prop :=
  (∃ start, t = start ++ .fftCursorTaken :: since) ∧ .fftCursorTaken ∉ since

/-- The same, as long as the generation has not come round to the one of the cursor. -/
def Gathers (plan : FftPlan F) (ring : Ring) (t : List Obs) (st : FftLocal F)
    (input : List UInt8) : Prop :=
  ∃ since, SinceCursor t since ∧ (incrementsOf since < 2 ^ 64 → ∃ unbroken later consumed fed first,
    Gathering plan ring since st input unbroken later consumed fed first)

theorem Gathers.quiet {ring' : Ring} (gathers : Gathers plan ring t st input)
    (serving : Serving ring ring' observed) (untaken : .fftCursorTaken ∉ observed) :
    Gathers plan ring' (t ++ observed) st input := by
  obtain ⟨since, ⟨⟨start, split⟩, last⟩, gathering⟩ := gathers
  refine ⟨since ++ observed, ⟨⟨start, by rw [split]; simp⟩, by simp [last, untaken]⟩, fun few => ?_⟩
  rw [incrementsOf_append] at few
  obtain ⟨unbroken, later, consumed, fed, first, now⟩ := gathering (by omega)
  exact ⟨unbroken, later ++ observed, consumed, fed, first, ⟨by rw [now.history, List.append_assoc],
    serving _ _ _ now.reading, now.whole, now.taken, now.samples, now.even, now.collected⟩⟩

/-- The hop loop does not look at the cursor. -/
theorem Collected.seek {fed : List (UInt8 × UInt8)} {first : Nat}
    (collected : Collected plan st fed first) (cursor : Cursor) :
    Collected plan { st with cursor } fed first :=
  ⟨collected.total, collected.within, collected.counting, collected.sized, collected.current,
    collected.gathered⟩

theorem gathers_start (collected : Collected plan st [] 0) (ring : Ring) (t : List Obs) :
    Gathers plan ring (t ++ [.fftCursorTaken]) { st with cursor := ringCursorNow ring } [] :=
  ⟨[], ⟨⟨t, rfl⟩, by simp⟩, fun _ => ⟨[], [], [], [], 0, ⟨rfl, reading_start ring, rfl,
    List.prefix_rfl, rfl, rfl, collected.seek _⟩⟩⟩

/-- What the loop of `fft_compute_thread` rests on at each point. -/
def Computes (plan : FftPlan F) (ring : Ring) (run : RunPc) (st : FftLocal F) (t : List Obs) :
    FftPc → Prop
  | .absent => Collected plan st [] 0 ∧ (run = .createFft → Gathers plan ring t st [])
  | .load => Gathers plan ring t st []
  | .session => Gathers plan ring t st []
  | .read => Gathers plan ring t st []
  | .process input => Gathers plan ring t st input
  | .gapClients _ => Collected plan st [] 0
  | .cursorNow => Collected plan st [] 0
  | _ => True

theorem Computes.quiet {ring' : Ring} {run run' : RunPc} {pc : FftPc}
    (computes : Computes plan ring run st t pc) (creates : run' = .createFft → run = .createFft)
    (serving : Serving ring ring' observed) (untaken : .fftCursorTaken ∉ observed) :
    Computes plan ring' run' st (t ++ observed) pc := by
  cases pc with
  | absent => exact ⟨computes.1, fun here => (computes.2 (creates here)).quiet serving untaken⟩
  | load | session | read | process input => exact Gathers.quiet computes serving untaken
  | gapClients generation => exact computes
  | cursorNow => exact computes
  | _ => trivial

theorem Gathers.read (gathers : Gathers plan ring t st []) :
    let read := ringReadCopy ring st.cursor (List.replicate ring.slotSize 0)
    (read.result = .empty → Gathers plan ring t { st with cursor := read.cursor } []) ∧
    (read.result = .data → read.block.length % 2 = 0 →
      Gathers plan ring t { st with cursor := read.cursor } read.block) := by
  intro read
  obtain ⟨since, last, gathering⟩ := gathers
  constructor
  · intro empty
    refine ⟨since, last, fun few => ?_⟩
    obtain ⟨unbroken, later, consumed, fed, first, now⟩ := gathering few
    rcases now.reading.read few (List.replicate ring.slotSize 0) (by simp) with
      same | same | ⟨block, data, _⟩
    · rw [show read = _ from same] at empty
      cases empty
    · rw [show read = _ from same]
      exact gathering few
    · rw [show read.result = _ from data] at empty
      cases empty
  · intro data pairs
    refine ⟨since, last, fun few => ?_⟩
    obtain ⟨unbroken, later, consumed, fed, first, now⟩ := gathering few
    rcases now.reading.read few (List.replicate ring.slotSize 0) (by simp) with
      same | same | ⟨block, _, same, _, current, _, reading⟩
    · rw [show read = _ from same] at data
      cases data
    · rw [show read = _ from same] at data
      cases data
    · -- the block is there, so no gap has come between
      rw [← same] at reading
      refine ⟨since, [], consumed ++ [read.block], fed, first, ⟨(List.append_nil since).symm, reading,
        current, reading.taken, ?_, pairs, now.collected.seek _⟩⟩
      have so_far : consumed.flatMap samplesOf = fed := by simpa [samplesOf] using now.samples
      rw [List.flatMap_append, so_far, List.flatMap_singleton]

theorem Gathers.round (gathers : Gathers plan ring t st input) :
    let out := processFftRound plan st input
    match out.2.2 with
    | .collecting => Gathers plan ring t out.1 out.2.1
    | .failed => True
    | .spectrum power => Gathers plan ring t out.1 out.2.1 ∧ ∃ since, SinceCursor t since ∧
        (incrementsOf since < 2 ^ 64 → plan.AverageOver since (power.map CFloat.toBits)) := by
  intro out
  obtain ⟨since, last, gathering⟩ := gathers
  -- what the round makes of the stream, once the bound holds
  have effect (few : incrementsOf since < 2 ^ 64) : ∃ unbroken later consumed fed first,
      Gathering plan ring since st input unbroken later consumed fed first ∧
      RoundEffect plan st fed input out := by
    obtain ⟨unbroken, later, consumed, fed, first, now⟩ := gathering few
    exact ⟨unbroken, later, consumed, fed, first, now,
      processFftRound_effect now.collected input now.even⟩
  have onward (more : ∀ fed, RoundEffect plan st fed input out → ∃ more first',
      samplesOf input = more ++ samplesOf out.2.1 ∧ Collected plan out.1 (fed ++ more) first') :
      Gathers plan ring t out.1 out.2.1 := by
    refine ⟨since, last, fun few => ?_⟩
    obtain ⟨unbroken, later, consumed, fed, first, now, round⟩ := effect few
    obtain ⟨more, first', parts, collected⟩ := more fed round
    refine ⟨unbroken, later, consumed, fed ++ more, first', ⟨now.history, ?_, now.whole, now.taken,
      ?_, round.even, collected⟩⟩
    · rw [round.cursor]
      exact now.reading
    · rw [now.samples, parts, List.append_assoc]
  cases result : out.2.2 with
  | collecting =>
    refine onward fun fed round => ?_
    obtain ⟨more, parts, collects⟩ := round.collects
    rw [result] at collects
    obtain ⟨first', collected⟩ := collects
    exact ⟨more, first', parts, collected⟩
  | failed => trivial
  | spectrum power =>
    constructor
    · refine onward fun fed round => ?_
      obtain ⟨more, parts, collects⟩ := round.collects
      rw [result] at collects
      obtain ⟨first', collected, _⟩ := collects
      exact ⟨more, _, parts, collected⟩
    · refine ⟨since, last, fun few => ?_⟩
      obtain ⟨unbroken, later, consumed, fed, first, now, round⟩ := effect few
      obtain ⟨more, parts, collects⟩ := round.collects
      rw [result] at collects
      obtain ⟨first', _, complete, average⟩ := collects
      -- the stream is the beginning of what was written in the unbroken part
      have begins : fed ++ more <+: samplesIn unbroken := by
        obtain ⟨rest, whole⟩ := now.taken
        have samples := now.samples
        rw [parts, ← List.append_assoc] at samples
        refine ⟨samplesOf out.2.1 ++ rest.flatMap samplesOf, ?_⟩
        rw [samplesIn, ← whole, List.flatMap_append, samples]
        simp only [List.append_assoc]
      refine ⟨[], unbroken, later, first', power, now.history, now.whole,
        complete.trans begins.length_le, ?_, rfl⟩
      rw [windows_begins plan begins first' plan.accum complete]
      exact average

/-! ### Every run -/

/-- Every published spectrum is such an average, and the shared one was published. -/
structure Computing (cfg : Config F) (srv : Server F D) (t : List Obs) : Prop where
  unstarted : srv.run.boots = true → srv.fftThread = .absent
  thread : ∀ plan, cfg.plan = some plan →
    Computes plan srv.ring srv.run srv.fftLocal t srv.fftThread
  spectra : History.Each (fun before e => ∀ seq generation power,
    e = .spectrum seq generation power → ∃ plan since, cfg.plan = some plan ∧
      SinceCursor before since ∧
      (incrementsOf since < 2 ^ 64 → plan.AverageOver since power)) t
  ready : srv.fft.ready = true →
    .spectrum srv.fft.seq srv.fft.generation (srv.fft.power.map CFloat.toBits) ∈ t
  numbered : srv.fft.seq.toNat = spectraOf t % 2 ^ 64

omit [CDouble D F] in
theorem Computing.keep {srv' : Server F D} (computing : Computing cfg srv t)
    (seq : srv'.fft.seq = srv.fft.seq) (ready : srv'.fft.ready = true → srv'.fft = srv.fft)
    (part : ∀ e ∈ observed, e.part ≠ .spectra ∨ e = .fftCursorTaken)
    (unstarted : srv'.run.boots = true → srv'.fftThread = .absent)
    (thread : ∀ plan, cfg.plan = some plan →
      Computes plan srv'.ring srv'.run srv'.fftLocal (t ++ observed) srv'.fftThread) :
    Computing cfg srv' (t ++ observed) where
  unstarted := unstarted
  thread := thread
  spectra := by
    apply History.each_append _ _ _ computing.spectra
    rintro before e after split seq generation power rfl
    simpa [Obs.part] using part (.spectrum seq generation power) (by simp [split])
  ready := by
    intro now
    have same := ready now
    rw [same] at now ⊢
    exact List.mem_append_left _ (computing.ready now)
  numbered := by
    rw [seq, spectraOf_append, spectraOf_part observed part]
    exact computing.numbered

omit [CDouble D F] in
theorem computing_fftStep (computing : Computing cfg srv t) (plan : FftPlan F)
    (planned : cfg.plan = some plan) :
    Computing cfg (fftStep plan srv).1 (t ++ (fftStep plan srv).2) := by
  by_cases absent : srv.fftThread = .absent
  · simp only [fftStep, absent, List.append_nil]
    exact computing
  have computes := computing.thread plan planned
  have serving := serving_aside srv.ring
  -- a step within the thread: the run loop is past its creation
  have go (srv' : Server F D) (observed : List Obs) (run : srv'.run = srv.run)
      (seq : srv'.fft.seq = srv.fft.seq) (ready : srv'.fft.ready = true → srv'.fft = srv.fft)
      (part : ∀ e ∈ observed, e.part ≠ .spectra ∨ e = .fftCursorTaken)
      (next : Computes plan srv'.ring srv'.run srv'.fftLocal (t ++ observed) srv'.fftThread) :
      Computing cfg srv' (t ++ observed) := by
    refine computing.keep seq ready part
      (fun boots => absurd (computing.unstarted (run ▸ boots)) absent) ?_
    intro other same
    cases planned.symm.trans same
    exact next
  have silent (srv' : Server F D) (run : srv'.run = srv.run) (fft : srv'.fft = srv.fft)
      (next : Computes plan srv'.ring srv'.run srv'.fftLocal t srv'.fftThread) :
      Computing cfg srv' (t ++ []) :=
    go srv' [] run (by rw [fft]) (fun _ => fft) (by simp) ((List.append_nil t).symm ▸ next)
  cases here : srv.fftThread with
  | absent => exact absurd here absent
  | load =>
    rw [here] at computes
    simp only [fftStep, here]
    refine silent _ rfl rfl ?_
    cases srv.stopping with
    | true => trivial
    | false => exact computes
  | session =>
    rw [here] at computes
    simp only [fftStep, here]
    refine silent _ rfl rfl ?_
    by_cases current : srv.captureEpoch = 1
    · simp only [if_pos current]
      exact computes
    · simp only [if_neg current]
      trivial
  | read =>
    rw [here] at computes
    obtain ⟨empty, data⟩ := Gathers.read computes
    simp only [fftStep, here]
    refine silent _ rfl rfl ?_
    simp only
    split
    next => trivial
    next result => exact empty result
    next => trivial
    next result =>
      split_ifs with odd
      · trivial
      · refine data result ?_
        rw [← ringReadCopy_len, ← Nat.and_one_is_mod]
        exact not_not.mp odd
  | process input =>
    rw [here] at computes
    cases input with
    | nil =>
      simp only [fftStep, here]
      exact silent _ rfl rfl computes
    | cons byte bytes =>
      have round := Gathers.round computes
      simp only [fftStep, here]
      -- the branches follow what came of the round
      cases result : (processFftRound plan srv.fftLocal (byte :: bytes)).2.2 with
      | collecting =>
        simp only [result] at round ⊢
        exact silent _ rfl rfl round
      | failed =>
        simp only
        exact silent _ rfl rfl trivial
      | spectrum power =>
        simp only [result] at round ⊢
        constructor
        · exact fun boots => absurd (computing.unstarted boots) absent
        · intro other same
          cases planned.symm.trans same
          exact round.1.quiet (serving _ (by simp [Obs.part])) (by simp)
        · apply History.each_concat _ _ _ computing.spectra
          rintro _ _ _ ⟨⟩
          obtain ⟨since, last, average⟩ := round.2
          exact ⟨plan, since, planned, last, average⟩
        · intro _
          simp
        · have numbered := computing.numbered
          rw [spectraOf_append]
          simp only [UInt64.toNat_add, numbered, UInt64.toNat_one]
          rw [Nat.mod_add_mod]
          rfl
  | gapPower =>
    simp only [fftStep, here]
    refine go _ [] rfl rfl (fun now => by cases now) (by simp) ?_
    exact collected_clear plan srv.fftLocal
  | gapClients generation =>
    rw [here] at computes
    simp only [fftStep, here]
    split_ifs
    · exact silent _ rfl rfl (by rw [here]; exact computes)
    · refine go _ _ rfl rfl (fun _ => rfl) ?_ computes
      intro e member
      obtain ⟨_, _, rfl⟩ := (mem_shutdowns srv
        (fun cl => cl.active && cl.mode == modeFft && cl.fftGeneration != generation) e).mp member
      simp [Obs.part]
  | cursorNow =>
    rw [here] at computes
    simp only [fftStep, here]
    exact go _ _ rfl rfl (fun _ => rfl) (by simp) (gathers_start computes srv.ring t)
  | stop =>
    simp only [fftStep, here]
    exact silent _ rfl rfl trivial
  | stopLock =>
    simp only [fftStep, here]
    split_ifs
    · exact silent _ rfl rfl (by rw [here]; trivial)
    · refine go _ _ rfl rfl (fun _ => rfl) (fun e member => .inl ?_) trivial
      simp [announced_part srv e (stopSection_announced srv e member)]
  | exited =>
    simp only [fftStep, here, List.append_nil]
    exact computing

theorem computing_step (inv : Lifecycle srv t) (waiting : Waiting srv)
    (computing : Computing cfg srv t) (a : Action) :
    Computing cfg (serverStep cfg srv a).1 (t ++ (serverStep cfg srv a).2) := by
  have effect := inv.effect cfg a
  have serving := effect.serving waiting
  generalize serverStep cfg srv a = result at effect serving ⊢
  obtain ⟨srv', observed⟩ := result
  have other (fft : srv'.fft = srv.fft) (fftLocal : srv'.fftLocal = srv.fftLocal)
      (fftThread : srv'.fftThread = srv.fftThread)
      (boots : srv'.run.boots = true → srv.run.boots = true)
      (creates : srv'.run = .createFft → srv.run = .createFft)
      (part : ∀ e ∈ observed, e.part ≠ .spectra) : Computing cfg srv' (t ++ observed) := by
    apply computing.keep
    · rw [fft]
    · exact fun _ => fft
    · exact fun e member => .inl (part e member)
    · rw [fftThread]
      exact fun booting => computing.unstarted (boots booting)
    · intro plan planned
      rw [fftLocal, fftThread]
      exact (computing.thread plan planned).quiet creates serving fun taken => part _ taken rfl
  cases effect with
  | publish => exact other rfl rfl rfl id id (by simp)
  | write | gap | notify => exact other rfl rfl rfl id id (by simp [Obs.part])
  | aside _ _ _ run _ past part =>
    have slots (e : Obs) (member : e ∈ observed) : e.part ≠ .spectra := by simp [part e member]
    rcases past with rfl | past
    · exact other rfl rfl rfl id id slots
    · refine other rfl rfl rfl (fun boots => ?_) (fun creates => ?_) slots
      · rw [past] at boots
        cases boots
      · rw [show run = _ from creates] at past
        cases past
  | run _ _ effect =>
    have fft := effect.fft
    cases effect.thread with
    | other fftLocal fftThread boots creates part =>
      exact other fft fftLocal fftThread boots creates fun e member => by simp [part e member]
    | takeCursor started =>
      have absent := computing.unstarted (by rw [started]; rfl)
      refine computing.keep rfl (fun _ => rfl) (by simp) (fun _ => absent) fun plan planned => ?_
      have computes := computing.thread plan planned
      rw [absent] at computes
      rw [absent]
      exact ⟨computes.1.seek _, fun _ => gathers_start computes.1 srv.ring t⟩
    | create here =>
      refine computing.keep rfl (fun _ => rfl) (by simp) (fun boots => by cases boots) ?_
      intro plan planned
      have computes := computing.thread plan planned
      rw [computing.unstarted (by rw [here]; rfl)] at computes
      exact (computes.2 here).quiet (serving_aside _ [] (by simp)) (by simp)
  | fft plan planned => exact computing_fftStep computing plan planned
  | worker slot works arrived pc thread =>
    have spoken := workerStep_effect cfg srv (srv.clients slot) works arrived pc thread
    refine other rfl rfl rfl id id fun e member => ?_
    simp [part_of_speaker e _ (spoken.speaks e member)]

omit [CDouble D F] in
theorem computing_initial (cfg : Config F) (ring : Ring) :
    Computing cfg (.initial cfg ring : Server F D) [] where
  unstarted := fun _ => rfl
  thread := by
    intro plan planned
    refine ⟨?_, fun creates => by cases creates⟩
    have cleared := collected_clear plan ⟨⟨0, 0⟩, 0, 0, [], []⟩
    simpa [Server.initial, planned, FftLocal.clear] using cleared
  spectra := History.each_nil _
  ready := fun ready => by cases ready
  numbered := rfl

end RtlSdr
