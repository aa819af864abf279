import EventJournal.Proofs.Settings.Values

/-!
Reading settings. Whatever texts are looked up, what is read of them can be used; and settings that can be used are read
back from their texts, whatever white space stands around these.
-/
namespace EventJournal

/-- The periods and names that an engine can use. -/
structure EngineConfig.Valid (c : EngineConfig) : Prop where
  period : ∀ n, c.placeholderEvery = some n → 2 ≤ n
  names : ∀ name ∈ c.ignoredEvents, Settings.Listable name

def RelayConfig.Valid (c : RelayConfig) : Prop :=
  1 ≤ c.batch

theorem EngineConfig.Valid.period?_versionPolicy {c : EngineConfig} (h : c.Valid) :
    c.versionPolicy.period? = c.placeholderEvery := by
  cases hevery : c.placeholderEvery with
  | none => simp [versionPolicy, hevery, VersionPolicy.period?]
  | some n => simp [versionPolicy, hevery, VersionPolicy.reserveEvery?, h.period n hevery, VersionPolicy.period?]

namespace Settings

open Text

variable {α β : Type} {lookup : String → Option String} {key : String}

structure Valid (s : Settings) : Prop where
  engine : s.engine.Valid
  bus : s.bus.Valid
  relay : s.relay.Valid

/-- The numbers take 64 bits at most. -/
structure Fits (s : Settings) : Prop where
  period : ∀ n, s.engine.placeholderEvery = some n → n < Nat.pow 2 64
  partitions : s.bus.partitions < Nat.pow 2 64
  capacity : s.bus.capacity < Nat.pow 2 64
  interval : s.relay.intervalMs < Nat.pow 2 64
  batch : s.relay.batch < Nat.pow 2 64

/-- A text was looked up, with any white space around it. -/
def Gives (found : Option String) (text : String) : Prop :=
  ∃ raw, found = some raw ∧ Padded text.toList raw.toList

/-- Settings as texts under the names that they are looked up by. There is white space around each text and around each
of the names between the commas, and nothing is set where no period is. -/
structure Tells (lookup : String → Option String) (s : Settings) : Prop where
  strict : Gives (lookup strictKey) (truthText s.engine.strict)
  ignored : ∃ parts, List.Forall₂ (fun name part => Padded name.toList part.toList) s.engine.ignoredEvents parts ∧
    Gives (lookup ignoredEventsKey) (",".intercalate parts)
  unset : s.engine.placeholderEvery = none → lookup placeholderEveryKey = none
  period : ∀ n, s.engine.placeholderEvery = some n → Gives (lookup placeholderEveryKey) n.repr
  partitions : Gives (lookup partitionsKey) s.bus.partitions.repr
  capacity : Gives (lookup capacityKey) s.bus.capacity.repr
  interval : Gives (lookup relayIntervalKey) s.relay.intervalMs.repr
  batch : Gives (lookup relayBatchKey) s.relay.batch.repr

namespace Reading

/-- What a reading may come to. -/
def MayYield (x : Reading α) (a : α) : Prop :=
  ∃ warned warned', x.run.run warned = (.ok a, warned')

/-- The reading comes to that, and warns of nothing. -/
def Yields (x : Reading α) (a : α) : Prop :=
  ∀ warned, x.run.run warned = (.ok a, warned)

variable {x : Reading α} {f : α → Reading β} {a a' : α} {b : β}

theorem MayYield.bind (h : (x >>= f : Reading β).MayYield b) : ∃ a, x.MayYield a ∧ (f a).MayYield b := by
  obtain ⟨warned, warned', h⟩ := h
  rw [ExceptT.run_bind, StateT.run_bind] at h
  cases hx : x.run.run warned with
  | mk result mid =>
    rw [hx] at h
    cases result with
    | ok a => exact ⟨a, ⟨warned, mid, hx⟩, ⟨mid, warned', h⟩⟩
    | error e => cases h

theorem eq_of_mayYield_pure (h : (pure a : Reading α).MayYield a') : a = a' := by
  obtain ⟨warned, warned', h⟩ := h
  cases h
  rfl

theorem not_mayYield_throw (e : ConfigError) : ¬ (throw e : Reading α).MayYield a := by
  rintro ⟨warned, warned', h⟩
  cases h

theorem yields_pure (a : α) : (pure a : Reading α).Yields a :=
  fun _ => rfl

theorem Yields.bind (hx : x.Yields a) (hf : (f a).Yields b) : (x >>= f : Reading β).Yields b := by
  intro warned
  rw [ExceptT.run_bind, StateT.run_bind, hx warned]
  exact hf warned

end Reading

section Values

variable {parse : List Char → Option α} {a : α}

/-- A value that is read was parsed. -/
theorem parse_of_mayYield {o : Option α} (h : (valueOf lookup key parse).MayYield o) (ho : o = some a) :
    ∃ text, parse text = some a := by
  subst ho
  unfold valueOf at h
  cases hraw : lookup key with
  | none =>
    rw [hraw] at h
    cases Reading.eq_of_mayYield_pure h
  | some raw =>
    rw [hraw] at h
    dsimp only at h
    split at h
    case isTrue =>
      obtain ⟨-, -, hnone⟩ := h.bind
      cases Reading.eq_of_mayYield_pure hnone
    case isFalse =>
      cases hparse : parse (trim raw.toList) with
      | none =>
        rw [hparse] at h
        exact absurd h (Reading.not_mayYield_throw _)
      | some a' =>
        rw [hparse] at h
        cases Reading.eq_of_mayYield_pure h
        exact ⟨_, hparse⟩

theorem valueOf_unset (h : lookup key = none) : (valueOf lookup key parse).Yields none := by
  rw [valueOf, h]
  exact Reading.yields_pure none

theorem valueOf_gives {text : String} (h : Gives (lookup key) text) (htext : Trimmed text.toList)
    (hne : text.toList ≠ []) (hparse : parse text.toList = some a) :
    (valueOf lookup key parse).Yields (some a) := by
  obtain ⟨raw, hraw, hpadded⟩ := h
  have htrim : trim raw.toList = text.toList := hpadded.trim_eq.trans htext.trim_eq
  have hempty : ¬ text.toList.isEmpty = true := by rwa [List.isEmpty_iff]
  rw [valueOf, hraw]
  dsimp only
  rw [htrim, if_neg hempty, hparse]
  exact Reading.yields_pure (some a)

theorem valueOf_truthText {b : Bool} (h : Gives (lookup key) (truthText b)) :
    (valueOf lookup key parseBool?).Yields (some b) :=
  valueOf_gives h (trimmed_truthText b) (by cases b <;> decide) (parseBool?_truthText b)

theorem valueOf_repr {n : Nat} (h : Gives (lookup key) n.repr) (hn : n < Nat.pow 2 64) :
    (valueOf lookup key parseWord?).Yields (some n) := by
  have hne : n.repr.toList ≠ [] := by
    rw [Nat.repr_eq_ofList_toDigits, String.toList_ofList]
    exact Nat.toDigits_ne_nil
  exact valueOf_gives h (trimmed_repr n) hne (parseWord?_repr hn)

theorem lt_of_mayYield_word {o : Option Nat} {n : Nat} (h : (valueOf lookup key parseWord?).MayYield o)
    (ho : o = some n) : n < Nat.pow 2 64 := by
  obtain ⟨text, hparse⟩ := parse_of_mayYield h ho
  exact parseWord?_lt hparse

/-- A number that is not looked up has its default. -/
theorem getD_lt_of_mayYield {o : Option Nat} {default : Nat} (h : (valueOf lookup key parseWord?).MayYield o)
    (hdefault : default < Nat.pow 2 64) : o.getD default < Nat.pow 2 64 := by
  cases ho : o with
  | none => exact hdefault
  | some n => exact lt_of_mayYield_word h ho

end Values

section Engine

variable {c : EngineConfig}

theorem readEngine_valid (h : (readEngine lookup).MayYield c) :
    c.Valid ∧ ∀ n, c.placeholderEvery = some n → n < Nat.pow 2 64 := by
  obtain ⟨strict, -, h⟩ := h.bind
  obtain ⟨every, hevery, h⟩ := h.bind
  have hnames : ∀ name ∈ ((lookup ignoredEventsKey).map parseNames).getD [], Listable name := by
    cases lookup ignoredEventsKey with
    | none => simp
    | some raw => exact fun _ => listable_of_mem_parseNames
  cases every with
  | none =>
    cases Reading.eq_of_mayYield_pure h
    exact ⟨⟨nofun, hnames⟩, nofun⟩
  | some n =>
    dsimp only at h
    split at h
    case isTrue =>
      obtain ⟨_, hthrow, _⟩ := h.bind
      exact absurd hthrow (Reading.not_mayYield_throw _)
    case isFalse htwo =>
      cases Reading.eq_of_mayYield_pure h
      refine ⟨⟨?_, hnames⟩, fun k hk => lt_of_mayYield_word hevery hk⟩
      rintro k ⟨⟩
      exact Nat.le_of_not_lt htwo

theorem readEngine_tells {s : Settings} (hvalid : s.engine.Valid) (hfits : s.Fits) (h : Tells lookup s) :
    (readEngine lookup).Yields s.engine := by
  obtain ⟨parts, hparts, raw, hraw, hpadded⟩ := h.ignored
  have hignored : ((lookup ignoredEventsKey).map parseNames).getD [] = s.engine.ignoredEvents := by
    rw [hraw]
    exact parseNames_of_padded hvalid.names hparts hpadded
  have hengine : ∀ every, s.engine.placeholderEvery = every →
      (⟨s.engine.strict, s.engine.ignoredEvents, every⟩ : EngineConfig) = s.engine := by
    rintro _ rfl
    rfl
  unfold readEngine
  refine (valueOf_truthText h.strict).bind ?_
  dsimp only
  rw [hignored]
  cases hevery : s.engine.placeholderEvery with
  | none =>
    refine (valueOf_unset (h.unset hevery)).bind ?_
    dsimp only [Option.getD_some]
    rw [hengine none hevery]
    exact Reading.yields_pure _
  | some n =>
    refine (valueOf_repr (h.period n hevery) (hfits.period n hevery)).bind ?_
    dsimp only [Option.getD_some]
    rw [if_neg (Nat.not_lt.mpr (hvalid.period n hevery)), hengine (some n) hevery]
    exact Reading.yields_pure _

end Engine

section Bus

variable {c : BusConfig}

theorem readBus_valid (h : (readBus lookup).MayYield c) :
    c.Valid ∧ c.partitions < Nat.pow 2 64 ∧ c.capacity < Nat.pow 2 64 := by
  obtain ⟨partitions, hpartitions, h⟩ := h.bind
  obtain ⟨capacity, hcapacity, h⟩ := h.bind
  dsimp only at h
  split at h
  next hvalid =>
    cases Reading.eq_of_mayYield_pure h
    exact ⟨BusConfig.validate_eq_ok_iff.mp hvalid, getD_lt_of_mayYield hpartitions (by decide),
      getD_lt_of_mayYield hcapacity (by decide)⟩
  next => exact absurd h (Reading.not_mayYield_throw _)

theorem readBus_tells {s : Settings} (hvalid : s.bus.Valid) (hfits : s.Fits) (h : Tells lookup s) :
    (readBus lookup).Yields s.bus := by
  refine (valueOf_repr h.partitions hfits.partitions).bind ?_
  refine (valueOf_repr h.capacity hfits.capacity).bind ?_
  dsimp only [Option.getD_some]
  rw [BusConfig.validate_eq_ok_iff.mpr hvalid]
  exact Reading.yields_pure _

end Bus

section Relay

variable {c : RelayConfig}

theorem readRelay_valid (h : (readRelay lookup).MayYield c) :
    c.Valid ∧ c.intervalMs < Nat.pow 2 64 ∧ c.batch < Nat.pow 2 64 := by
  obtain ⟨interval, hinterval, h⟩ := h.bind
  obtain ⟨batch, hbatch, h⟩ := h.bind
  dsimp only at h
  split at h
  case isTrue =>
    obtain ⟨_, hthrow, _⟩ := h.bind
    exact absurd hthrow (Reading.not_mayYield_throw _)
  case isFalse hzero =>
    cases Reading.eq_of_mayYield_pure h
    refine ⟨?_, getD_lt_of_mayYield hinterval (by decide), getD_lt_of_mayYield hbatch (by decide)⟩
    cases batch with
    | none => exact Nat.le_of_ble_eq_true rfl
    | some n =>
      have hn : n ≠ 0 := by simpa using hzero
      exact Nat.one_le_iff_ne_zero.mpr hn

theorem readRelay_tells {s : Settings} (hvalid : s.relay.Valid) (hfits : s.Fits) (h : Tells lookup s) :
    (readRelay lookup).Yields s.relay := by
  have hbatch : some s.relay.batch ≠ some 0 := fun h0 => Nat.ne_of_gt hvalid (Option.some.inj h0)
  refine (valueOf_repr h.interval hfits.interval).bind ?_
  refine (valueOf_repr h.batch hfits.batch).bind ?_
  dsimp only
  rw [if_neg hbatch]
  exact Reading.yields_pure _

end Relay

section Whole

variable {s : Settings}

theorem read_valid (h : (read lookup).MayYield s) : s.Valid ∧ s.Fits := by
  obtain ⟨engine, hengine, h⟩ := h.bind
  obtain ⟨bus, hbus, h⟩ := h.bind
  obtain ⟨relay, hrelay, h⟩ := h.bind
  cases Reading.eq_of_mayYield_pure h
  obtain ⟨hengine, hperiod⟩ := readEngine_valid hengine
  obtain ⟨hbus, hpartitions, hcapacity⟩ := readBus_valid hbus
  obtain ⟨hrelay, hinterval, hbatch⟩ := readRelay_valid hrelay
  exact ⟨⟨hengine, hbus, hrelay⟩, ⟨hperiod, hpartitions, hcapacity, hinterval, hbatch⟩⟩

theorem read_tells (hvalid : s.Valid) (hfits : s.Fits) (h : Tells lookup s) : (read lookup).Yields s := by
  refine (readEngine_tells hvalid.engine hfits h).bind ?_
  refine (readBus_tells hvalid.bus hfits h).bind ?_
  refine (readRelay_tells hvalid.relay hfits h).bind ?_
  exact Reading.yields_pure s

/-- The plain texts of settings, with no white space around them. -/
def texts (s : Settings) : String → Option String
  | "TIDEWATER_STRICT" => some (truthText s.engine.strict)
  | "TIDEWATER_IGNORED_EVENTS" => some (",".intercalate s.engine.ignoredEvents)
  | "TIDEWATER_PLACEHOLDER_EVERY" => s.engine.placeholderEvery.map Nat.repr
  | "TIDEWATER_BUS_PARTITIONS" => some s.bus.partitions.repr
  | "TIDEWATER_BUS_CAPACITY" => some s.bus.capacity.repr
  | "TIDEWATER_RELAY_INTERVAL_MS" => some s.relay.intervalMs.repr
  | "TIDEWATER_RELAY_BATCH" => some s.relay.batch.repr
  | _ => none

theorem gives_self (text : String) : Gives (some text) text :=
  ⟨text, rfl, Padded.refl text.toList⟩

theorem tells_texts (s : Settings) : Tells s.texts s where
  strict := gives_self _
  ignored := ⟨s.engine.ignoredEvents, List.forall₂_same.mpr fun name _ => Padded.refl name.toList, gives_self _⟩
  unset h := by
    show s.engine.placeholderEvery.map Nat.repr = none
    rw [h]
    rfl
  period n h := by
    show Gives (s.engine.placeholderEvery.map Nat.repr) n.repr
    rw [h]
    exact gives_self _
  partitions := gives_self _
  capacity := gives_self _
  interval := gives_self _
  batch := gives_self _

/-- Exactly the valid settings can be read. Whatever the texts are, settings that are read of them are valid, and the
period of the engine's policy is the one that was read; and valid settings come back from their texts, with any white
space around the values and around the names, and without a warning. -/
theorem valid_iff_readable :
    (∀ s : Settings, s.Valid ∧ s.Fits ↔ ∃ lookup warned, ofLookup lookup = (.ok s, warned)) ∧
    (∀ (lookup : String → Option String) (s : Settings) (warned : List Record), ofLookup lookup = (.ok s, warned) →
      s.Valid ∧ s.Fits ∧ s.engine.versionPolicy.period? = s.engine.placeholderEvery) ∧
    ∀ (s : Settings) (lookup : String → Option String), s.Valid → s.Fits → Tells lookup s →
      ofLookup lookup = (.ok s, []) := by
  have hsound : ∀ (lookup : String → Option String) (s : Settings) (warned : List Record),
      ofLookup lookup = (.ok s, warned) → s.Valid ∧ s.Fits :=
    fun lookup s warned h => read_valid ⟨[], warned, h⟩
  have hback : ∀ (s : Settings) (lookup : String → Option String), s.Valid → s.Fits → Tells lookup s →
      ofLookup lookup = (.ok s, []) :=
    fun s lookup hvalid hfits h => read_tells hvalid hfits h []
  refine ⟨fun s => ⟨?readable, ?valid⟩, ?sound, hback⟩
  case readable =>
    rintro ⟨hvalid, hfits⟩
    exact ⟨s.texts, [], hback s s.texts hvalid hfits (tells_texts s)⟩
  case valid =>
    rintro ⟨lookup, warned, h⟩
    exact hsound lookup s warned h
  case sound =>
    intro lookup s warned h
    obtain ⟨hvalid, hfits⟩ := hsound lookup s warned h
    exact ⟨hvalid, hfits, hvalid.engine.period?_versionPolicy⟩

/-- Settings of a shop, and how they may stand in its environment. -/
def shop : Settings :=
  ⟨⟨true, ["placed", "cancelled"], some 10⟩, ⟨8, 16⟩, ⟨250, 5⟩⟩

def shopEnvironment : String → Option String
  | "TIDEWATER_STRICT" => some " true"
  | "TIDEWATER_IGNORED_EVENTS" => some " placed , cancelled\n"
  | "TIDEWATER_PLACEHOLDER_EVERY" => some "10"
  | "TIDEWATER_BUS_PARTITIONS" => some "\t8 "
  | "TIDEWATER_BUS_CAPACITY" => some "16"
  | "TIDEWATER_RELAY_INTERVAL_MS" => some "250"
  | "TIDEWATER_RELAY_BATCH" => some "5  "
  | _ => none

theorem valid_shop : shop.Valid where
  engine :=
    { period := by simp [shop]
      names := by
        intro name hname
        rcases List.mem_pair.mp hname with rfl | rfl
        · exact ⟨by decide, by decide, trimmed_of_not_any (by decide)⟩
        · exact ⟨by decide, by decide, trimmed_of_not_any (by decide)⟩ }
  bus := ⟨by decide, by decide⟩
  relay := by
    show 1 ≤ 5
    decide

theorem fits_shop : shop.Fits where
  period := by simp [shop]
  partitions := by decide
  capacity := by decide
  interval := by decide
  batch := by decide

theorem tells_shopEnvironment : Tells shopEnvironment shop where
  strict := ⟨_, rfl, .of_all [' '] [] rfl rfl (by decide)⟩
  ignored := by
    refine ⟨[" placed ", " cancelled\n"], .cons ?_ (.cons ?_ .nil), _, rfl, Padded.refl _⟩
    · exact .of_all [' '] [' '] rfl rfl (by decide)
    · exact .of_all [' '] ['\n'] rfl rfl (by decide)
  unset h := by cases h
  period n h := by
    cases h
    exact ⟨_, rfl, Padded.refl _⟩
  partitions := ⟨_, rfl, .of_all ['\t'] [' '] rfl rfl (by decide)⟩
  capacity := ⟨_, rfl, Padded.refl _⟩
  interval := ⟨_, rfl, Padded.refl _⟩
  batch := ⟨_, rfl, .of_all [] [' ', ' '] rfl rfl (by decide)⟩

theorem valid_iff_readable_shop :
    shop.Valid ∧ shop.Fits ∧ Tells shopEnvironment shop ∧ ofLookup shopEnvironment = (.ok shop, []) ∧
      shop.engine.versionPolicy.period? = some 10 ∧ ∃ lookup warned, ofLookup lookup = (.ok shop, warned) := by
  obtain ⟨hexact, hsound, hback⟩ := valid_iff_readable
  have hread : ofLookup shopEnvironment = (.ok shop, []) :=
    hback shop shopEnvironment valid_shop fits_shop tells_shopEnvironment
  obtain ⟨-, -, hperiod⟩ := hsound shopEnvironment shop [] hread
  exact ⟨valid_shop, fits_shop, tells_shopEnvironment, hread, hperiod, (hexact shop).mp ⟨valid_shop, fits_shop⟩⟩

end Whole

end Settings

end EventJournal
