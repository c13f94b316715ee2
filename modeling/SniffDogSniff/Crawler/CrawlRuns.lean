import SniffDogSniff.Base.Runs
import SniffDogSniff.Crawler.ScanDocument
import SniffDogSniff.Crawler.UrlQueue

/-!
# The crawler under its calls

The thread of the crawler takes urls from a queue, and adds the links of their pages to the
queue and to a list, which the publishing task empties.  It sleeps while the queue is empty.
The calls of the other threads may come between any two of its turns.

Behind the links of a page their number is logged as if it were a string, where the level of
the log is not below one: the crawler does not survive this.

## Main definitions

* `State`, `Event`, `State.step` — the crawler with its thread, and what happens to it.
* `OneThread`, `Admissible` — what happens to a crawler with one thread that does not crash.
* `enqueued`, `taken`, `found`, `handedOut` — what goes through the queue and the list.

## Main results

* `nothing_lost` — **no url and no entry is lost or comes twice.**
* `always_awake` — **the thread does not sleep through a url or its stop.**
* `ended_of_stops` — **it ends after it has been stopped.**
-/

namespace SniffDogSniff.WebCrawler

section

variable [Hashing]

/-- Where the thread stands in `crawlingFunc`. -/
inductive Thread
  /-- There is no thread, or it has been joined. -/
  | none
  /-- In front of the test of `run`. -/
  | looping
  /-- In front of the mutex, and of the test of the queue behind it. -/
  | locking
  /-- In `pthread_cond_wait`. -/
  | waiting
  /-- It downloads the page of a url. -/
  | fetching (url : Bytes)
  /-- In front of the mutex again, with the links of a page. -/
  | storing (entries : Entries)
  /-- A number has been logged as a string, with the mutex held. -/
  | crashed
  | ended

/-- `WebCrawler`, with its thread. -/
structure State where
  /-- The level up to which there is a log. -/
  verbosity : ℤ
  run : Bool
  urlQueue : List Bytes
  searches : List SearchEntry
  thread : Thread

/-- What happens to the crawler. -/
inductive Event
  /-- `startCrawling` creates the thread. -/
  | starts
  /-- `startCrawling` sets `run`, behind that. -/
  | setsRun
  /-- The thread goes on; `page` is the body of the page, if it is downloading one. -/
  | turns (page : Option GumboNode)
  /-- `pthread_cond_wait` returns without a signal. -/
  | wakes
  | loads (file : Bytes)
  | broadcasts
  /-- `doSearch`, with the entries that are in its list in the end. -/
  | searches (entries : List SearchEntry)
  /-- `stopCrawling`, up to the join. -/
  | stops
  /-- The join returns. -/
  | joins

/-- The thread takes a turn. -/
def Event.isTurn : Event → Bool
  | .turns _ => true
  | _ => false

/-- The crawler is not started again, and its thread has not been joined yet. -/
def Event.Later : Event → Prop
  | .starts | .setsRun | .joins => False
  | _ => True

namespace State

/-- `pthread_cond_signal`. -/
def signal (s : State) : State :=
  match s.thread with
  | .waiting => { s with thread := .locking }
  | _ => s

@[simp] theorem verbosity_signal (s : State) : s.signal.verbosity = s.verbosity := by
  rw [signal]
  split <;> rfl

@[simp] theorem run_signal (s : State) : s.signal.run = s.run := by
  rw [signal]
  split <;> rfl

@[simp] theorem urlQueue_signal (s : State) : s.signal.urlQueue = s.urlQueue := by
  rw [signal]
  split <;> rfl

@[simp] theorem searches_signal (s : State) : s.signal.searches = s.searches := by
  rw [signal]
  split <;> rfl

variable [Gumbo]

/-- The next part of `crawlingFunc`. -/
def turn (s : State) (page : Option GumboNode) : State :=
  match s.thread with
  | .looping => { s with thread := if s.run then .locking else .ended }
  | .locking =>
    match s.urlQueue with
    | [] => { s with thread := if s.run then .waiting else .ended }
    | url :: urlQueue => { s with urlQueue := urlQueue, thread := .fetching url }
  | .fetching url =>
    match page with
    | none => { s with thread := .looping }
    | some body => { s with thread := .storing (scanDocument url body ∅) }
  | .storing entries =>
    { s with
      urlQueue := s.urlQueue ++ entries.entries.map Prod.fst
      searches := s.searches ++ entries.entries.map Prod.snd
      thread := if s.verbosity < 1 then .looping else .crashed }
  | .none | .waiting | .crashed | .ended => s

def step (s : State) : Event → State
  | .starts => { s with thread := .looping }
  | .setsRun => { s with run := true }
  | .turns page => s.turn page
  | .wakes => s.signal
  | .loads file => signal { s with urlQueue := (load file s.urlQueue).getD s.urlQueue }
  | .broadcasts => signal { s with searches := [] }
  | .searches entries => signal { s with urlQueue := s.urlQueue ++ entries.map (·.url) }
  | .stops => signal { s with run := false }
  | .joins => { s with thread := .none }

/-- The level of the log stays as it is. -/
@[simp] theorem verbosity_step (s : State) (e : Event) : (s.step e).verbosity = s.verbosity := by
  cases e with
  | turns page =>
    rw [step, turn]
    split
    · rfl
    · split <;> rfl
    · split <;> rfl
    all_goals rfl
  | starts => rfl
  | setsRun => rfl
  | joins => rfl
  | wakes => exact verbosity_signal _
  | loads file => exact verbosity_signal _
  | broadcasts => exact verbosity_signal _
  | searches entries => exact verbosity_signal _
  | stops => exact verbosity_signal _

omit [Gumbo] in
/-- There is one thread at a time, which is joined where it has ended. -/
def OneThread (s : State) : Event → Prop
  | .starts => s.thread = .none ∨ s.thread = .ended
  | .joins => s.thread = .ended
  | _ => True

omit [Gumbo] in
/-- Besides, no call is undefined: the file ends with a line, and the number of the links of
a page is not logged. -/
def Admissible (s : State) (e : Event) : Prop :=
  s.OneThread e ∧
    match e with
    | .loads file => (load file s.urlQueue).isSome
    | .turns _ => ∀ entries, s.thread = .storing entries → s.verbosity < 1
    | _ => True

/-! ### What goes through -/

/-- The urls that an event puts into the queue; from a file, `load` makes an empty one of
every line. -/
def enqueued (s : State) : Event → List Bytes
  | .turns _ =>
    match s.thread with
    | .storing entries => entries.entries.map Prod.fst
    | _ => []
  | .loads file => List.replicate (file.count newline) []
  | .searches entries => entries.map (·.url)
  | _ => []

/-- The url that the thread takes out of it. -/
def taken (s : State) : Event → List Bytes
  | .turns _ =>
    match s.thread with
    | .locking => s.urlQueue.take 1
    | _ => []
  | _ => []

/-- The entries that the thread adds to the list. -/
def found (s : State) : Event → List SearchEntry
  | .turns _ =>
    match s.thread with
    | .storing entries => entries.entries.map Prod.snd
    | _ => []
  | _ => []

/-- The entries that the publishing task gets. -/
def handedOut (s : State) : Event → List SearchEntry
  | .broadcasts => s.searches
  | _ => []

end State

variable [Gumbo]

namespace State

/-! ### Nothing is lost -/

theorem urls_step (s : State) (e : Event) (he : s.Admissible e) :
    s.taken e ++ (s.step e).urlQueue = s.urlQueue ++ s.enqueued e := by
  cases e with
  | turns page =>
    simp only [step, turn, taken, enqueued]
    cases s.thread with
    | locking =>
      cases s.urlQueue with
      | nil => rfl
      | cons url urlQueue => exact (List.append_nil _).symm
    | fetching url =>
      cases page with
      | none => exact (List.append_nil _).symm
      | some body => exact (List.append_nil _).symm
    | storing entries => rfl
    | none => exact (List.append_nil _).symm
    | looping => exact (List.append_nil _).symm
    | waiting => exact (List.append_nil _).symm
    | crashed => exact (List.append_nil _).symm
    | ended => exact (List.append_nil _).symm
  | loads file =>
    obtain ⟨urlQueue, hload⟩ := Option.isSome_iff_exists.mp he.2
    simp only [step, taken, enqueued, urlQueue_signal, hload, Option.getD_some,
      eq_append_of_load hload, List.nil_append]
  | searches entries => simp only [step, taken, enqueued, urlQueue_signal, List.nil_append]
  | starts => exact (List.append_nil _).symm
  | setsRun => exact (List.append_nil _).symm
  | wakes => simp [step, taken, enqueued]
  | broadcasts => simp [step, taken, enqueued]
  | stops => simp [step, taken, enqueued]
  | joins => exact (List.append_nil _).symm

theorem entries_step (s : State) (e : Event) :
    s.handedOut e ++ (s.step e).searches = s.searches ++ s.found e := by
  cases e with
  | turns page =>
    simp only [step, turn, handedOut, found, List.nil_append]
    cases s.thread with
    | locking => cases s.urlQueue <;> exact (List.append_nil _).symm
    | fetching url => cases page <;> exact (List.append_nil _).symm
    | storing entries => rfl
    | none => exact (List.append_nil _).symm
    | looping => exact (List.append_nil _).symm
    | waiting => exact (List.append_nil _).symm
    | crashed => exact (List.append_nil _).symm
    | ended => exact (List.append_nil _).symm
  | broadcasts => simp [step, handedOut, found]
  | searches entries => simp [step, handedOut, found]
  | loads file => simp [step, handedOut, found]
  | starts => exact (List.append_nil _).symm
  | setsRun => exact (List.append_nil _).symm
  | wakes => simp [step, handedOut, found]
  | stops => simp [step, handedOut, found]
  | joins => exact (List.append_nil _).symm

/-- **Nothing is lost, and nothing comes twice**, in a crawler that does not crash: the urls
that have been taken and those in the queue are all that were put there, in their order, and so
are the entries that have been handed out and those in the list. -/
theorem nothing_lost {s : State} {events : List Event}
    (hrun : Runs.Along step Admissible s events) :
    Runs.gather step taken s events ++ (Runs.run step s events).urlQueue =
        s.urlQueue ++ Runs.gather step enqueued s events ∧
      Runs.gather step handedOut s events ++ (Runs.run step s events).searches =
        s.searches ++ Runs.gather step found s events :=
  ⟨Runs.gather_fifo urls_step events s hrun,
    Runs.gather_fifo (fun s e _ => entries_step s e) events s hrun⟩

/-! ### The thread wakes up -/

/-- The thread sleeps only where there is nothing for it to do. -/
def Awake (s : State) : Prop := s.thread = .waiting → s.urlQueue = [] ∧ s.run = true

omit [Gumbo] in
theorem awake_signal (s : State) : s.signal.Awake := by
  intro hwaiting
  rw [signal] at hwaiting
  split at hwaiting
  · cases hwaiting
  · next hnot => exact absurd hwaiting hnot

theorem awake_turn {s : State} (h : s.Awake) (page : Option GumboNode) : (s.turn page).Awake := by
  intro hwaiting
  rw [turn] at hwaiting ⊢
  split at hwaiting
  · dsimp only at hwaiting
    split at hwaiting <;> cases hwaiting
  · split at hwaiting
    · next hnil =>
      dsimp only at hwaiting
      split at hwaiting
      · next hrun => exact ⟨hnil, hrun⟩
      · cases hwaiting
    · cases hwaiting
  · split at hwaiting <;> cases hwaiting
  · dsimp only at hwaiting
    split at hwaiting <;> cases hwaiting
  · next hthread => exact absurd (hthread.symm.trans hwaiting) nofun
  · exact h hwaiting
  · next hthread => exact absurd (hthread.symm.trans hwaiting) nofun
  · next hthread => exact absurd (hthread.symm.trans hwaiting) nofun

theorem awake_step {s : State} (h : s.Awake) (e : Event) : (s.step e).Awake := by
  cases e with
  | starts => exact nofun
  | setsRun => exact fun hwaiting => ⟨(h hwaiting).1, rfl⟩
  | turns page => exact awake_turn h page
  | wakes => exact awake_signal s
  | loads file => exact awake_signal _
  | broadcasts => exact awake_signal _
  | searches entries => exact awake_signal _
  | stops => exact awake_signal _
  | joins => exact nofun

/-- How many turns the thread takes to its end, once it has been stopped. -/
def turnsLeft (s : State) : ℕ :=
  match s.thread with
  | .none | .crashed | .ended => 0
  | .looping => 1
  | .storing _ => 2
  | .fetching _ => 3
  | .locking => 4
  | .waiting => 5

/-- How many urls it takes on the way there. -/
def urlsLeft (s : State) : ℕ :=
  match s.thread with
  | .locking | .waiting => 1
  | _ => 0

/-- There is a thread that has not crashed and will not, for want of a log. -/
structure Sound (s : State) : Prop where
  quiet : s.verbosity < 1
  present : s.thread ≠ .none
  intact : s.thread ≠ .crashed

/-- The crawler is stopped, and the thread is not asleep. -/
structure Stopped (s : State) : Prop extends s.Sound where
  run : s.run = false
  awake : s.thread ≠ .waiting

omit [Gumbo] in
theorem signal_of_ne {s : State} (h : s.thread ≠ .waiting) : s.signal = s := by
  rw [signal]
  split
  · next hwaiting => exact absurd hwaiting h
  · rfl

omit [Gumbo] in
theorem stopped_signal {s : State} (hsound : s.Sound) (hrun : s.run = false) :
    s.signal.Stopped := by
  rw [signal]
  split
  · exact ⟨⟨hsound.quiet, nofun, nofun⟩, hrun, nofun⟩
  · next hnot => exact ⟨hsound, hrun, hnot⟩

/-- What a turn comes to behind the stop. -/
theorem stopped_turn {s : State} (h : s.Stopped) (page : Option GumboNode) :
    (s.turn page).Stopped ∧ (s.turn page).turnsLeft ≤ s.turnsLeft - 1 ∧
      (s.taken (.turns page)).length + (s.turn page).urlsLeft ≤ s.urlsLeft := by
  obtain ⟨verbosity, run, urlQueue, searches, thread⟩ := s
  obtain ⟨⟨hquiet, hpresent, hintact⟩, rfl, hthread⟩ := h
  cases thread with
  | none => exact absurd rfl hpresent
  | crashed => exact absurd rfl hintact
  | waiting => exact absurd rfl hthread
  | locking =>
    cases urlQueue with
    | nil => exact ⟨⟨⟨hquiet, nofun, nofun⟩, rfl, nofun⟩, Nat.zero_le _, Nat.zero_le _⟩
    | cons url urlQueue =>
      exact ⟨⟨⟨hquiet, nofun, nofun⟩, rfl, nofun⟩, le_refl 3, le_refl 1⟩
  | fetching url =>
    cases page with
    | none => exact ⟨⟨⟨hquiet, nofun, nofun⟩, rfl, nofun⟩, Nat.le_succ 1, le_refl 0⟩
    | some body => exact ⟨⟨⟨hquiet, nofun, nofun⟩, rfl, nofun⟩, le_refl 2, le_refl 0⟩
  | storing entries =>
    have hlooping : (if verbosity < 1 then Thread.looping else .crashed) = .looping :=
      if_pos hquiet
    rw [turn]
    dsimp only
    rw [hlooping]
    exact ⟨⟨⟨hquiet, nofun, nofun⟩, rfl, nofun⟩, le_refl 1, le_refl 0⟩
  | looping => exact ⟨⟨⟨hquiet, nofun, nofun⟩, rfl, nofun⟩, le_refl 0, le_refl 0⟩
  | ended => exact ⟨⟨⟨hquiet, nofun, nofun⟩, rfl, nofun⟩, le_refl 0, le_refl 0⟩

/-- What an event comes to behind the stop. -/
theorem stopped_step {s : State} (h : s.Stopped) {e : Event} (he : e.Later) :
    (s.step e).Stopped ∧ (s.step e).turnsLeft ≤ s.turnsLeft - (if e.isTurn then 1 else 0) ∧
      (s.taken e).length + (s.step e).urlsLeft ≤ s.urlsLeft := by
  -- the calls of the others leave the thread where it is
  have hsignal : ∀ s' : State, s'.verbosity = s.verbosity → s'.run = false →
      s'.thread = s.thread →
        s'.signal.Stopped ∧ s'.signal.turnsLeft ≤ s.turnsLeft - 0 ∧
          ([] : List Bytes).length + s'.signal.urlsLeft ≤ s.urlsLeft := by
    intro s' hverbosity hrun hthread
    have hsame : s'.signal = s' := signal_of_ne (hthread ▸ h.awake)
    have hsound : s'.Sound :=
      ⟨hverbosity.trans_lt h.quiet, hthread ▸ h.present, hthread ▸ h.intact⟩
    refine ⟨stopped_signal hsound hrun, ?_, ?_⟩
    · rw [hsame, turnsLeft, turnsLeft, hthread]
      rfl
    · rw [hsame, urlsLeft, urlsLeft, hthread, List.length_nil, Nat.zero_add]
  cases e with
  | starts => exact he.elim
  | setsRun => exact he.elim
  | joins => exact he.elim
  | turns page => exact stopped_turn h page
  | wakes => exact hsignal s rfl h.run rfl
  | loads file => exact hsignal _ rfl h.run rfl
  | broadcasts => exact hsignal _ rfl h.run rfl
  | searches entries => exact hsignal _ rfl h.run rfl
  | stops => exact hsignal _ rfl rfl rfl

end State

end

/-! ### A short run -/

/-- A crawler that has not been started, without a log. -/
def State.fresh [Hashing] : State := ⟨0, false, [], [], .none⟩

/-- It is started, a file with one line is loaded, a search gives it a url, the page of the
first url is not found, and the other url is taken. -/
def Event.twoUrls [Hashing] : List Event :=
  [.starts, .setsRun, .turns none, .loads [97, 10], .searches [SearchEntry.new [] [97] .SITE ∅],
    .turns none, .turns none, .turns none, .turns none]

theorem load_line : load [97, 10] [] = some [[]] := by
  have hline : fgets BUFFER_ROOM [97, 10] = ([97, 10], []) := by decide
  have hurl : loadUrl [97, 10] = some [] := by decide
  rw [load, loadLoop, hline]
  dsimp only
  rw [hurl]
  dsimp only
  rw [loadLoop]
  rfl

theorem State.admissible_twoUrls :
    letI := Gumbo.exact
    letI := Hashing.blank
    Runs.Along step Admissible fresh Event.twoUrls :=
  let _ := Gumbo.exact
  let _ := Hashing.blank
  have hquiet : (fresh : State).verbosity < 1 := Int.one_pos
  ⟨⟨Or.inl rfl, trivial⟩, ⟨trivial, trivial⟩, ⟨trivial, fun _ _ => by simpa using hquiet⟩,
    ⟨trivial, Option.isSome_of_eq_some load_line⟩, ⟨trivial, trivial⟩,
    ⟨trivial, fun _ _ => by simpa using hquiet⟩, ⟨trivial, fun _ _ => by simpa using hquiet⟩,
    ⟨trivial, fun _ _ => by simpa using hquiet⟩, ⟨trivial, fun _ _ => by simpa using hquiet⟩,
    trivial⟩

/-- Both urls have been taken. -/
theorem State.nothing_lost_twoUrls :
    letI := Gumbo.exact
    letI := Hashing.blank
    Runs.gather step taken fresh Event.twoUrls ++ (Runs.run step fresh Event.twoUrls).urlQueue =
        fresh.urlQueue ++ Runs.gather step enqueued fresh Event.twoUrls ∧
      Runs.gather step handedOut fresh Event.twoUrls ++
          (Runs.run step fresh Event.twoUrls).searches =
        fresh.searches ++ Runs.gather step found fresh Event.twoUrls :=
  let _ := Gumbo.exact
  let _ := Hashing.blank
  nothing_lost admissible_twoUrls

end SniffDogSniff.WebCrawler
