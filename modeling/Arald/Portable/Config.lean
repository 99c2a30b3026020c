import Arald.Foundations.JsValue
import Arald.Foundations.Runs

/-!
# The configuration of a portable install

`loadOrCreatePortableConfig` of `portable-config.ts`, called by any number of
launches on one path at which there is no file yet. The steps of the file system
(the existence checks, the read, the opening, the filling and the `chmod`) of the
launches interleave in any order. A file is empty between its creation, or its
truncation, and its filling.

Texts are those of the runtime: what `JSON.stringify` writes is read back by
`JSON.parse`, and the empty text is not JSON.
-/

namespace Arald

open Foundations

/-! ### Configurations -/

@[ext] structure PortableConfig where
  identityDir : String
  webPort : ℤ
  port : ℤ
  networkPassword : String
  identityDir_ne : identityDir ≠ ""
  webPort_range : 1 ≤ webPort ∧ webPort ≤ 65535
  port_range : 0 ≤ port ∧ port ≤ 65535
  networkPassword_ne : networkPassword ≠ ""

instance : DecidableEq PortableConfig := fun _ _ =>
  decidable_of_iff _ PortableConfig.ext_iff.symm

namespace PortableConfig

/-- A non-empty text, as `generateNetworkPassword` and `path.join` make it. -/
abbrev NonEmptyText := { s : String // s ≠ "" }

def defaultPortableWebPort : ℤ := 8080

def toJs (c : PortableConfig) : JsValue :=
  .obj [
    ("identityDir", .str c.identityDir),
    ("webPort", .num (.finite c.webPort)),
    ("port", .num (.finite c.port)),
    ("networkPassword", .str c.networkPassword)]

def fresh (identityDir networkPassword : NonEmptyText) : PortableConfig where
  identityDir := identityDir
  webPort := defaultPortableWebPort
  port := 0
  networkPassword := networkPassword
  identityDir_ne := identityDir.2
  webPort_range := by decide
  port_range := by decide
  networkPassword_ne := networkPassword.2

/-- The value, and whether the fallback was used. -/
def stringOrFallback (v : JsValue) (fallback : NonEmptyText) : NonEmptyText × Bool :=
  match v with
  | .str s => if h : s ≠ "" then (⟨s, h⟩, false) else (fallback, true)
  | _ => (fallback, true)

def intInRangeOrFallback (v : JsValue) {low high : ℤ} (fallback : { n : ℤ // low ≤ n ∧ n ≤ high }) :
    { n : ℤ // low ≤ n ∧ n ≤ high } × Bool :=
  match v.finite? with
  | some q => if h : q.den = 1 ∧ low ≤ q.num ∧ q.num ≤ high then (⟨q.num, h.2⟩, false) else (fallback, true)
  | none => (fallback, true)

/-- Field by field, with a fresh default for what is missing or has the wrong
shape; the flag says that there was such a field. -/
def validatePortableConfig (raw : JsValue) (identityDir networkPassword : NonEmptyText) :
    Option (PortableConfig × Bool) :=
  match raw with
  | .obj _ =>
    let dir := stringOrFallback (raw.prop "identityDir") identityDir
    let webPort := intInRangeOrFallback (raw.prop "webPort")
      (⟨defaultPortableWebPort, by decide⟩ : { n : ℤ // 1 ≤ n ∧ n ≤ 65535 })
    let port := intInRangeOrFallback (raw.prop "port") (⟨0, by decide⟩ : { n : ℤ // 0 ≤ n ∧ n ≤ 65535 })
    let password := stringOrFallback (raw.prop "networkPassword") networkPassword
    some
      ({ identityDir := dir.1
         webPort := webPort.1
         port := port.1
         networkPassword := password.1
         identityDir_ne := dir.1.2
         webPort_range := webPort.1.2
         port_range := port.1.2
         networkPassword_ne := password.1.2 },
        dir.2 || webPort.2 || port.2 || password.2)
  | _ => none

/-- A configuration is salvaged as it is. -/
theorem validate_toJs (c : PortableConfig) (identityDir networkPassword : NonEmptyText) :
    validatePortableConfig c.toJs identityDir networkPassword = some (c, false) := by
  obtain ⟨dir, webPort, port, password, hdir, hweb, hport, hpassword⟩ := c
  simp [validatePortableConfig, toJs, JsValue.prop, stringOrFallback, intInRangeOrFallback,
    JsValue.finite?, hdir, hweb, hport, hpassword]

end PortableConfig

/-- The texts of files, and the functions of the runtime that read and write them. -/
structure ConfigRuntime where
  Text : Type
  empty : Text
  /-- `JSON.stringify(config, null, 2)`. -/
  render : PortableConfig → Text
  /-- `JSON.parse`, `none` when it throws. -/
  parse : Text → Option JsValue
  /-- What is left when a text is written over the start of another one. -/
  writeOver : Text → Text → Text
  /-- `path.join(dataDir, "identity")`. -/
  identityDir : String → PortableConfig.NonEmptyText
  parse_render : ∀ c, parse (render c) = some c.toJs
  parse_empty : parse empty = none
  writeOver_empty : ∀ text, writeOver text empty = text

/-! ### Launches -/

/-- Where `tryLoadExistingConfig` is called. -/
inductive LoadSite where
  | atStart (configPathExistedBefore : Bool)
  | afterCollision
  deriving DecidableEq

/-- The next step of a launch. -/
inductive LaunchPhase where
  | checking
  | probing (site : LoadSite)
  | reading (site : LoadSite)
  | repairOpening (config : PortableConfig)
  | repairFilling (config : PortableConfig)
  | repairProtecting (config : PortableConfig)
  | opening (configPathExistedBefore : Bool) (config : PortableConfig)
  | filling (config : PortableConfig)
  | protecting (config : PortableConfig)
  | returned (config : PortableConfig) (created : Bool)
  | threw
  deriving DecidableEq

namespace LaunchPhase

/-- A launch that has not seen a file. -/
def IsStarting : LaunchPhase → Prop
  | .checking | .probing (.atStart false) | .opening false _ => True
  | _ => False

/-- A launch that has neither written to the file nor returned. -/
def IsWaiting : LaunchPhase → Prop
  | .checking | .probing _ | .reading _ | .opening false _ => True
  | _ => False

/-- A launch that waits, or goes by a configuration. -/
def Follows (own : PortableConfig) (phase : LaunchPhase) : Prop :=
  phase.IsWaiting ∨ phase = .protecting own ∨ ∃ created, phase = .returned own created

theorem IsStarting.isWaiting {phase : LaunchPhase} (h : phase.IsStarting) :
    phase.IsWaiting := by
  unfold IsStarting at h
  split at h <;> trivial

/-- At most so many steps are left. -/
def stepsLeft : LaunchPhase → ℕ
  | checking => 9
  | probing (.atStart _) => 8
  | reading (.atStart _) => 7
  | opening false _ => 6
  | probing .afterCollision => 5
  | reading .afterCollision => 4
  | opening true _ | repairOpening _ => 3
  | filling _ | repairFilling _ => 2
  | protecting _ | repairProtecting _ => 1
  | returned .. | threw => 0

end LaunchPhase

open PortableConfig

/-- The file at the path, and the launches. -/
structure Launches (rt : ConfigRuntime) (ι : Type) where
  file : Option rt.Text
  phase : ι → LaunchPhase

namespace Launches

variable {rt : ConfigRuntime} {ι : Type}

/-- Nothing could be loaded: a configuration is made up, or the collision is reported. -/
def notLoaded (site : LoadSite) (config : PortableConfig) : LaunchPhase :=
  match site with
  | .atStart configPathExistedBefore => .opening configPathExistedBefore config
  | .afterCollision => .threw

/-- A step of a launch on the file; `config` is made of fresh defaults. -/
def advance (file : Option rt.Text) (config : PortableConfig) :
    LaunchPhase → Option (Option rt.Text × LaunchPhase)
  | .checking => some (file, .probing (.atStart file.isSome))
  | .probing site => some (file, if file.isSome then .reading site else notLoaded site config)
  | .reading site =>
    match file.bind rt.parse with
    | none => some (file, notLoaded site config)
    | some raw =>
      match validatePortableConfig raw ⟨config.identityDir, config.identityDir_ne⟩
          ⟨config.networkPassword, config.networkPassword_ne⟩ with
      | none => some (file, notLoaded site config)
      | some (loaded, hadFallback) =>
        some (file, if hadFallback then .repairOpening loaded else .returned loaded false)
  | .repairOpening loaded => some (some rt.empty, .repairFilling loaded)
  | .repairFilling loaded =>
    some (some (rt.writeOver (rt.render loaded) (file.getD rt.empty)), .repairProtecting loaded)
  | .repairProtecting loaded => some (file, .returned loaded false)
  | .opening true own => some (some rt.empty, .filling own)
  | .opening false own =>
    if file.isSome then some (file, .probing .afterCollision) else some (some rt.empty, .filling own)
  | .filling own => some (some (rt.writeOver (rt.render own) (file.getD rt.empty)), .protecting own)
  | .protecting own => some (file, .returned own true)
  | .returned .. => none
  | .threw => none

theorem stepsLeft_notLoaded (site : LoadSite) (config : PortableConfig) :
    (notLoaded site config).stepsLeft < (LaunchPhase.reading site).stepsLeft := by
  rcases site with (_ | _) | _ <;> simp [notLoaded, LaunchPhase.stepsLeft]

theorem stepsLeft_loaded (site : LoadSite) (loaded : PortableConfig) (hadFallback : Bool) :
    (if hadFallback then LaunchPhase.repairOpening loaded else .returned loaded false).stepsLeft <
      (LaunchPhase.reading site).stepsLeft := by
  cases hadFallback <;> rcases site with _ | _ <;> simp [LaunchPhase.stepsLeft]

/-- A call runs to its end, whatever the others do to the file. -/
theorem advance_stepsLeft {file file' : Option rt.Text} {config : PortableConfig}
    {phase phase' : LaunchPhase} (h : advance file config phase = some (file', phase')) :
    phase'.stepsLeft < phase.stepsLeft := by
  cases phase with
  | probing site =>
    cases h
    have hreading : (LaunchPhase.reading site).stepsLeft < (LaunchPhase.probing site).stepsLeft := by
      rcases site with _ | _ <;> simp [LaunchPhase.stepsLeft]
    split
    · exact hreading
    · exact (stepsLeft_notLoaded site config).trans hreading
  | reading site =>
    rw [advance] at h
    split at h
    · cases h
      exact stepsLeft_notLoaded site config
    · split at h
      · cases h
        exact stepsLeft_notLoaded site config
      · cases h
        exact stepsLeft_loaded site _ _
  | opening existed own =>
    cases existed with
    | true =>
      cases h
      simp [LaunchPhase.stepsLeft]
    | false =>
      rw [advance] at h
      split at h <;> cases h <;> simp [LaunchPhase.stepsLeft]
  | returned config created => cases h
  | threw => cases h
  | _ =>
    cases h
    simp [LaunchPhase.stepsLeft]

variable [DecidableEq ι]

/-- A launch takes its next step, with the password that it generates in it. -/
def step (dataDir : ι → String) (s : Launches rt ι) (e : ι × NonEmptyText) : Option (Launches rt ι) :=
  (advance s.file (fresh (rt.identityDir (dataDir e.1)) e.2) (s.phase e.1)).map fun r =>
    ⟨r.1, Function.update s.phase e.1 r.2⟩

/-- No file yet, and every launch at its beginning. -/
def system (rt : ConfigRuntime) (dataDir : ι → String) : System (Launches rt ι) (ι × NonEmptyText) where
  Init s := s = ⟨none, fun _ => .checking⟩
  step := step dataDir

/-- The file is not read before it is filled by a launch that found it at its first
check, or that has lost the exclusive create. -/
def readsFilled (s : Launches rt ι) (e : ι × NonEmptyText) : Bool :=
  match s.phase e.1 with
  | .reading (.atStart false) => true
  | .reading _ => (s.file.bind rt.parse).isSome
  | _ => true

/-! ### Agreement -/

/-- Before the file exists, between its creation and its filling, and after that. -/
inductive Agreeing (s : Launches rt ι) : Prop
  | absent (hfile : s.file = none) (hphase : ∀ i, (s.phase i).IsStarting)
  | created (winner : ι) (own : PortableConfig) (hfile : s.file = some rt.empty)
      (hwinner : s.phase winner = .filling own) (hphase : ∀ i, i ≠ winner → (s.phase i).IsWaiting)
  | filled (own : PortableConfig) (hfile : s.file = some (rt.render own))
      (hphase : ∀ i, (s.phase i).Follows own)

variable {s s' : Launches rt ι} {i : ι} {own config : PortableConfig} {phase : LaunchPhase}
  {file : Option rt.Text}

/-- Without a file, a launch that has seen none goes on, or creates the file. -/
theorem advance_absent {file' : Option rt.Text} {phase' : LaunchPhase} (hstarting : phase.IsStarting)
    (hadvance : advance none config phase = some (file', phase')) :
    file' = none ∧ phase'.IsStarting ∨ ∃ own, file' = some rt.empty ∧ phase' = .filling own := by
  unfold LaunchPhase.IsStarting at hstarting
  split at hstarting
  · cases hadvance
    exact .inl ⟨rfl, trivial⟩
  · cases hadvance
    exact .inl ⟨rfl, trivial⟩
  · cases hadvance
    exact .inr ⟨_, rfl, rfl⟩
  · exact hstarting.elim

/-- While the file is empty, a launch that has not lost its chance keeps waiting. -/
theorem advance_empty (hwaiting : LaunchPhase.IsWaiting phase)
    (hreads : ∀ site, phase = .reading site → site = .atStart false) :
    ∃ phase', advance (some rt.empty) config phase = some (some rt.empty, phase') ∧
      LaunchPhase.IsWaiting phase' := by
  cases phase with
  | checking => exact ⟨_, rfl, trivial⟩
  | probing site => exact ⟨.reading site, rfl, trivial⟩
  | reading site =>
    obtain rfl := hreads site rfl
    refine ⟨.opening false config, ?_, trivial⟩
    rw [advance, Option.bind_some, rt.parse_empty]
    rfl
  | opening existed own =>
    cases existed with
    | true => exact hwaiting.elim
    | false => exact ⟨.probing .afterCollision, rfl, trivial⟩
  | _ => exact hwaiting.elim

/-- Once the file is filled, a waiting launch waits on or returns what it says. -/
theorem advance_filled (hwaiting : LaunchPhase.IsWaiting phase) :
    ∃ phase', advance (some (rt.render own)) config phase = some (some (rt.render own), phase') ∧
      (LaunchPhase.IsWaiting phase' ∨ phase' = .returned own false) := by
  cases phase with
  | checking => exact ⟨_, rfl, .inl trivial⟩
  | probing site => exact ⟨.reading site, rfl, .inl trivial⟩
  | reading site =>
    refine ⟨.returned own false, ?_, .inr rfl⟩
    rw [advance, Option.bind_some, rt.parse_render]
    dsimp only
    rw [validate_toJs]
    rfl
  | opening existed own =>
    cases existed with
    | true => exact hwaiting.elim
    | false => exact ⟨.probing .afterCollision, rfl, .inl trivial⟩
  | _ => exact hwaiting.elim

/-- What holds of the other launches and of the new phase holds of all launches. -/
theorem forall_update {P : LaunchPhase → Prop} (hother : ∀ j, j ≠ i → P (s.phase j)) (hself : P phase) :
    ∀ j, P (Function.update s.phase i phase j) := by
  intro j
  rcases eq_or_ne j i with rfl | hj
  · rw [Function.update_self]
    exact hself
  · rw [Function.update_of_ne hj]
    exact hother j hj

namespace Agreeing

theorem step {dataDir : ι → String} {e : ι × NonEmptyText} (h : Agreeing s)
    (hreads : s.readsFilled e = true) (hstep : Launches.step dataDir s e = some s') : Agreeing s' := by
  obtain ⟨⟨file', phase'⟩, hadvance, rfl⟩ := Option.map_eq_some_iff.mp hstep
  cases h with
  | absent hfile hphase =>
    rw [hfile] at hadvance
    rcases advance_absent (hphase e.1) hadvance with ⟨rfl, hstarting⟩ | ⟨own, rfl, rfl⟩
    · exact .absent rfl (forall_update (P := LaunchPhase.IsStarting) (fun j _ => hphase j) hstarting)
    · refine .created e.1 own rfl (Function.update_self ..) fun j hj => ?_
      dsimp only
      rw [Function.update_of_ne hj]
      exact (hphase j).isWaiting
  | created winner own hfile hwinner hphase =>
    rw [hfile] at hadvance
    rcases eq_or_ne e.1 winner with rfl | hne
    · -- the winner fills the file
      rw [hwinner] at hadvance
      cases hadvance
      refine .filled own ?_
        (forall_update (P := LaunchPhase.Follows own) (fun j hj => .inl (hphase j hj)) ?_)
      · exact congrArg some (rt.writeOver_empty _)
      · exact .inr (.inl rfl)
    · have hsite : ∀ site, s.phase e.1 = .reading site → site = .atStart false := by
        intro site hsite
        rw [readsFilled, hsite, hfile, Option.bind_some, rt.parse_empty] at hreads
        split at hreads
        · next hreading => exact (LaunchPhase.reading.inj hreading)
        · cases hreads
        · next hnot => exact (hnot _ rfl).elim
      obtain ⟨phase'', hnext, hwaiting⟩ := advance_empty (hphase e.1 hne) hsite
      obtain ⟨rfl, rfl⟩ := Prod.mk.inj (Option.some.inj (hadvance.symm.trans hnext))
      refine .created winner own rfl ((Function.update_of_ne hne.symm ..).trans hwinner) fun j hj => ?_
      dsimp only
      rcases eq_or_ne j e.1 with rfl | hje
      · rw [Function.update_self]
        exact hwaiting
      · rw [Function.update_of_ne hje]
        exact hphase j hj
  | filled own hfile hphase =>
    rw [hfile] at hadvance
    rcases hphase e.1 with hwaiting | hself | ⟨created, hself⟩
    · obtain ⟨phase'', hnext, hafter⟩ := advance_filled hwaiting
      obtain ⟨rfl, rfl⟩ := Prod.mk.inj (Option.some.inj (hadvance.symm.trans hnext))
      refine .filled own rfl (forall_update (P := LaunchPhase.Follows own) (fun j _ => hphase j) ?_)
      exact hafter.imp_right fun hreturned => .inr ⟨false, hreturned⟩
    · rw [hself] at hadvance
      cases hadvance
      refine .filled own rfl (forall_update (P := LaunchPhase.Follows own) (fun j _ => hphase j) ?_)
      exact .inr (.inr ⟨true, rfl⟩)
    · rw [hself] at hadvance
      cases hadvance

end Agreeing

/-! ### Main results -/

variable {dataDir : ι → String}

theorem agreeing (h : (system rt dataDir).ReachableUnder (fun s e => s.readsFilled e = true) s) :
    Agreeing s := by
  apply h.invariant (I := Agreeing)
  · rintro s rfl
    exact .absent rfl fun _ => trivial
  · intro s e s' hagreeing hreads hstep
    exact hagreeing.step hreads hstep

namespace Agreeing

omit [DecidableEq ι] in
/-- What a launch has returned is on disk. -/
theorem file_of_returned (h : Agreeing s) {created : Bool} (hreturned : s.phase i = .returned config created) :
    s.file = some (rt.render config) := by
  cases h with
  | absent hfile hphase => exact (hreturned ▸ hphase i).elim
  | created winner own hfile hwinner hphase =>
    rcases eq_or_ne i winner with rfl | hne
    · cases hreturned.symm.trans hwinner
    · exact (hreturned ▸ hphase i hne).elim
  | filled own hfile hphase =>
    rcases hphase i with hwaiting | hprotecting | ⟨_, hown⟩
    · exact (hreturned ▸ hwaiting).elim
    · cases hreturned.symm.trans hprotecting
    · cases hreturned.symm.trans hown
      exact hfile

omit [DecidableEq ι] in
theorem not_threw (h : Agreeing s) : s.phase i ≠ .threw := by
  intro hthrew
  cases h with
  | absent hfile hphase => exact (hthrew ▸ hphase i).elim
  | created winner own hfile hwinner hphase =>
    rcases eq_or_ne i winner with rfl | hne
    · cases hthrew.symm.trans hwinner
    · exact (hthrew ▸ hphase i hne).elim
  | filled own hfile hphase =>
    rcases hphase i with hwaiting | hprotecting | ⟨_, hown⟩
    · exact (hthrew ▸ hwaiting).elim
    · cases hthrew.symm.trans hprotecting
    · cases hthrew.symm.trans hown

end Agreeing

theorem render_injective : Function.Injective rt.render := by
  intro c c' hrender
  have htoJs : c.toJs = c'.toJs := by
    have hparse := congrArg rt.parse hrender
    rw [rt.parse_render, rt.parse_render] at hparse
    exact Option.some.inj hparse
  obtain ⟨text⟩ : Nonempty NonEmptyText := ⟨"identity", by decide⟩
  have hvalidated := validate_toJs c text text
  rw [htoJs, validate_toJs] at hvalidated
  exact (congrArg Prod.fst (Option.some.inj hvalidated)).symm

/-- A launch that can take no step has returned, or thrown. -/
theorem ended_of_step_none {password : NonEmptyText} (h : step dataDir s (i, password) = none) :
    (∃ config created, s.phase i = .returned config created) ∨ s.phase i = .threw := by
  have hadvance := Option.map_eq_none_iff.mp h
  cases hphase : s.phase i <;> rw [hphase] at hadvance
  case returned config created => exact .inl ⟨config, created, rfl⟩
  case threw => exact .inr rfl
  case reading site =>
    rw [advance] at hadvance
    split at hadvance
    · cases hadvance
    · split at hadvance <;> cases hadvance
  case opening existed own =>
    cases existed
    · rw [advance] at hadvance
      split at hadvance <;> cases hadvance
    · cases hadvance
  all_goals cases hadvance

/-- As long as nobody reads a file that is not filled yet, all launches return one
configuration, which is the one on disk. -/
theorem launches_agree (rt : ConfigRuntime) (dataDir : ι → String) (s : Launches rt ι)
    (h : (system rt dataDir).ReachableUnder (fun s e => s.readsFilled e = true) s) :
    (∀ i config created, s.phase i = .returned config created → s.file = some (rt.render config)) ∧
      (∀ i j config config' created created', s.phase i = .returned config created →
        s.phase j = .returned config' created' → config = config') ∧
      (∀ i password, (∃ config created, s.phase i = .returned config created) ∨
        ∃ s', step dataDir s (i, password) = some s' ∧
          (s'.phase i).stepsLeft < (s.phase i).stepsLeft) := by
  have hagreeing := agreeing h
  refine ⟨fun i config created => hagreeing.file_of_returned, ?_, ?_⟩
  · intro i j config config' created created' hi hj
    have hfile := (hagreeing.file_of_returned hi).symm.trans (hagreeing.file_of_returned hj)
    exact render_injective (Option.some.inj hfile)
  · intro i password
    cases hstep : step dataDir s (i, password) with
    | none => exact (ended_of_step_none hstep).imp_right fun hthrew => (hagreeing.not_threw hthrew).elim
    | some s' =>
      refine .inr ⟨s', rfl, ?_⟩
      obtain ⟨⟨file', phase'⟩, hadvance, rfl⟩ := Option.map_eq_some_iff.mp hstep
      dsimp only
      rw [Function.update_self]
      exact advance_stepsLeft hadvance

/-! ### Two launches -/

/-- Texts that are the configurations themselves, all of one length. -/
def sampleConfigRuntime : ConfigRuntime where
  Text := Option PortableConfig
  empty := none
  render := some
  parse text := text.map toJs
  writeOver text _ := text
  identityDir dataDir := ⟨dataDir ++ "/identity", by simp⟩
  parse_render _ := rfl
  parse_empty := rfl
  writeOver_empty _ := rfl

def usbStick : Bool → String := fun _ => "/media/usb"

def firstPassword : NonEmptyText := ⟨"k3f9-x2mq", by decide⟩

def secondPassword : NonEmptyText := ⟨"p7wt-8rzd", by decide⟩

def firstConfig : PortableConfig := fresh (sampleConfigRuntime.identityDir "/media/usb") firstPassword

def secondConfig : PortableConfig := fresh (sampleConfigRuntime.identityDir "/media/usb") secondPassword

def firstSteps (n : ℕ) : List (Bool × NonEmptyText) := List.replicate n (false, firstPassword)

def secondSteps (n : ℕ) : List (Bool × NonEmptyText) := List.replicate n (true, secondPassword)

def ends (s : Launches sampleConfigRuntime Bool) : LaunchPhase × LaunchPhase := (s.phase false, s.phase true)

/-- The second launch finds nothing either, loses the exclusive create and reads
what the first one has written. -/
theorem launches_agree_collision :
    ∃ s : Launches sampleConfigRuntime Bool, s.file = some (some firstConfig) ∧
      s.phase true = .returned firstConfig false := by
  have hrun : (((system sampleConfigRuntime usbStick).runUnder readsFilled ⟨none, fun _ => .checking⟩
      (firstSteps 2 ++ secondSteps 2 ++ firstSteps 3 ++ secondSteps 3)).map ends) =
        some (.returned firstConfig true, .returned firstConfig false) := by
    decide
  obtain ⟨s, hs, hends⟩ := Option.map_eq_some_iff.mp hrun
  have hagree := launches_agree _ _ s (System.reachableUnder_of_runUnder rfl hs)
  obtain ⟨hfirst, hsecond⟩ := Prod.mk.inj hends
  exact ⟨s, hagree.1 true _ _ hsecond, hsecond⟩

/-- The second launch finds the file that the first one has just created, cannot
read it yet and overwrites it. Both return what they made up. -/
theorem empty_file_overwritten :
    ∃ s : Launches sampleConfigRuntime Bool, (system sampleConfigRuntime usbStick).Reachable s ∧
      s.phase false = .returned firstConfig true ∧ s.phase true = .returned secondConfig true ∧
      firstConfig ≠ secondConfig := by
  have hrun : (((system sampleConfigRuntime usbStick).run ⟨none, fun _ => .checking⟩
      (firstSteps 3 ++ secondSteps 6 ++ firstSteps 2)).map ends) =
        some (.returned firstConfig true, .returned secondConfig true) := by
    decide
  obtain ⟨s, hs, hends⟩ := Option.map_eq_some_iff.mp hrun
  obtain ⟨hfirst, hsecond⟩ := Prod.mk.inj hends
  exact ⟨s, System.reachable_of_run rfl hs, hfirst, hsecond, by decide⟩

end Launches
end Arald
