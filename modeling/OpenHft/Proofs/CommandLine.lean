import Mathlib.Data.List.Induction
import Mathlib.Data.List.TakeWhile
import OpenHft.Lib.Runs
import OpenHft.Proofs.RuntimeTls
import OpenHft.Spec.CommandLine

/-!
# The programs take the command lines that are meant

A turn of either loop reads an option of the grammar and every option of it, so the rules for
loops over arguments say which command lines are taken, and that each can be read in one way.
What is left is that the last option of a kind counts, the numbers, and the checks behind the
loop of the trading side, one of which never fails.
-/

namespace OpenHft

open Lib

/-! ## Numbers -/

theorem fromChars_eq_some {bits n : Nat} {text : List Char} :
    fromChars bits text = some (n, []) ↔
      text ≠ [] ∧ (∀ c ∈ text, c.isDigit = true) ∧ Nat.ofDigitChars 10 text 0 = n ∧
        n < 2 ^ bits := by
  unfold fromChars
  constructor
  · intro h
    by_cases hdigits : text.takeWhile Char.isDigit = []
    · rw [if_pos hdigits] at h
      cases h
    · rw [if_neg hdigits] at h
      by_cases hfits : Nat.ofDigitChars 10 (text.takeWhile Char.isDigit) 0 < 2 ^ bits
      · rw [if_pos hfits] at h
        obtain ⟨hvalue, hrest⟩ := Prod.mk.inj (Option.some.inj h)
        have hall := List.dropWhile_eq_nil_iff.mp hrest
        have hself : text.takeWhile Char.isDigit = text := List.takeWhile_eq_self_iff.mpr hall
        rw [hself] at hdigits hvalue hfits
        exact ⟨hdigits, hall, hvalue, hvalue ▸ hfits⟩
      · rw [if_neg hfits] at h
        cases h
  · rintro ⟨hne, hall, hvalue, hfits⟩
    have hself : text.takeWhile Char.isDigit = text := List.takeWhile_eq_self_iff.mpr hall
    rw [hself, if_neg hne, hvalue, if_pos hfits, List.dropWhile_eq_nil_iff.mpr hall]

theorem fromChars_numeral {bits n : Nat} {text : String} :
    fromChars bits text.toList = some (n, []) ↔ Numeral text n ∧ n < 2 ^ bits := by
  rw [fromChars_eq_some]
  constructor
  · rintro ⟨hne, hall, hvalue, hfits⟩
    exact ⟨⟨hne, hall, hvalue⟩, hfits⟩
  · rintro ⟨⟨hne, hall, hvalue⟩, hfits⟩
    exact ⟨hne, hall, hvalue, hfits⟩

theorem numeral_repr (n : Nat) : Numeral n.repr n where
  some := by
    rw [Nat.toList_repr]
    exact Nat.toDigits_ne_nil
  digits := by
    intro c hc
    rw [Nat.toList_repr] at hc
    exact Nat.isDigit_of_mem_toDigits (by omega) (Nat.le_refl 10) hc
  value := by
    rw [Nat.toList_repr]
    exact Nat.ofDigitChars_ten_toDigits

/-! ## `trading_runtime` -/

namespace TradingOptions

theorem parseCpuIndex_eq_some {text : String} {cpuIndex : UInt64} :
    parseCpuIndex text = some cpuIndex ↔
      ∃ n < 2 ^ 64, Numeral text n ∧ cpuIndex = UInt64.ofNat n := by
  unfold parseCpuIndex
  constructor
  · intro h
    split at h
    · next n hread =>
        obtain ⟨hnumeral, hlt⟩ := fromChars_numeral.mp hread
        exact ⟨n, hlt, hnumeral, (Option.some.inj h).symm⟩
    · cases h
  · rintro ⟨n, hlt, hnumeral, rfl⟩
    rw [fromChars_numeral.mpr ⟨hnumeral, hlt⟩]

theorem parsePort_eq_some {text : String} {port : UInt16} :
    parsePort text = some port ↔
      ∃ n < 2 ^ 16, n ≠ 0 ∧ Numeral text n ∧ port = UInt16.ofNat n := by
  unfold parsePort
  constructor
  · intro h
    split at h
    · next n hread =>
        obtain ⟨hnumeral, -⟩ := fromChars_numeral.mp hread
        split at h
        · cases h
        · next hrange => exact ⟨n, by omega, by omega, hnumeral, (Option.some.inj h).symm⟩
    · cases h
  · rintro ⟨n, hlt, hne, hnumeral, rfl⟩
    rw [fromChars_numeral.mpr ⟨hnumeral, by omega⟩]
    exact if_neg (by omega)

open TradingOption

theorem parseArgument_sound {o o' : TradingOptions} {argument : String} {rest : List String}
    {values : Nat} (h : o.parseArgument argument rest = .ok (o', values)) :
    values ≤ rest.length ∧ ∃ option : TradingOption, option.Valid ∧
      option.render = argument :: rest.take values ∧ o' = apply o option := by
  have hone : ∀ (value : String) (rest : List String), 1 ≤ (value :: rest).length :=
    fun _ _ => Nat.succ_le_succ (Nat.zero_le _)
  unfold parseArgument at h
  by_cases hmode : argument = "--mode"
  · rw [if_pos hmode] at h
    subst hmode
    cases rest with
    | nil => cases h
    | cons modeValue rest =>
        dsimp only at h
        by_cases hreplay : modeValue = "replay"
        · rw [if_pos hreplay] at h
          subst hreplay
          cases rest with
          | nil => cases h
          | cons file rest =>
              cases h
              exact ⟨Nat.succ_le_succ (hone file rest), .replay file, trivial, rfl, rfl⟩
        · rw [if_neg hreplay] at h
          by_cases hdpdk : modeValue = "dpdk"
          · rw [if_pos hdpdk] at h
            subst hdpdk
            cases h
            exact ⟨hone _ rest, .dpdk, trivial, rfl, rfl⟩
          · rw [if_neg hdpdk] at h
            cases h
  rw [if_neg hmode] at h
  by_cases hrx : argument = "--rx-cpu"
  · rw [if_pos hrx] at h
    subst hrx
    cases rest with
    | nil => cases h
    | cons value rest =>
        dsimp only at h
        cases hcpu : parseCpuIndex value with
        | none =>
            rw [hcpu] at h
            cases h
        | some cpuIndex =>
            rw [hcpu] at h
            cases h
            obtain ⟨n, hlt, hnumeral, rfl⟩ := parseCpuIndex_eq_some.mp hcpu
            refine ⟨hone value rest, .rxCpu value, ⟨n, hlt, hnumeral⟩, rfl, ?_⟩
            rw [apply, hnumeral.value]
  rw [if_neg hrx] at h
  by_cases hpipeline : argument = "--pipeline-cpu"
  · rw [if_pos hpipeline] at h
    subst hpipeline
    cases rest with
    | nil => cases h
    | cons value rest =>
        dsimp only at h
        cases hcpu : parseCpuIndex value with
        | none =>
            rw [hcpu] at h
            cases h
        | some cpuIndex =>
            rw [hcpu] at h
            cases h
            obtain ⟨n, hlt, hnumeral, rfl⟩ := parseCpuIndex_eq_some.mp hcpu
            refine ⟨hone value rest, .pipelineCpu value, ⟨n, hlt, hnumeral⟩, rfl, ?_⟩
            rw [apply, hnumeral.value]
  rw [if_neg hpipeline] at h
  by_cases hexecution : argument = "--execution"
  · rw [if_pos hexecution] at h
    subst hexecution
    cases rest with
    | nil => cases h
    | cons value rest =>
        dsimp only at h
        by_cases hrecording : value = "recording"
        · rw [if_pos hrecording] at h
          subst hrecording
          cases h
          exact ⟨hone _ rest, .execution .recording, trivial, rfl, rfl⟩
        · rw [if_neg hrecording] at h
          by_cases htls : value = "tls"
          · rw [if_pos htls] at h
            subst htls
            cases h
            exact ⟨hone _ rest, .execution .tls, trivial, rfl, rfl⟩
          · rw [if_neg htls] at h
            cases h
  rw [if_neg hexecution] at h
  by_cases hhost : argument = "--host"
  · rw [if_pos hhost] at h
    subst hhost
    cases rest with
    | nil => cases h
    | cons value rest =>
        cases h
        exact ⟨hone value rest, .host value, trivial, rfl, rfl⟩
  rw [if_neg hhost] at h
  by_cases hport : argument = "--port"
  · rw [if_pos hport] at h
    subst hport
    cases rest with
    | nil => cases h
    | cons value rest =>
        dsimp only at h
        cases hparsed : parsePort value with
        | none =>
            rw [hparsed] at h
            cases h
        | some port =>
            rw [hparsed] at h
            cases h
            obtain ⟨n, hlt, hne, hnumeral, rfl⟩ := parsePort_eq_some.mp hparsed
            refine ⟨hone value rest, .port value, ⟨n, hlt, hne, hnumeral⟩, rfl, ?_⟩
            rw [apply, hnumeral.value]
  rw [if_neg hport] at h
  by_cases hca : argument = "--ca"
  · rw [if_pos hca] at h
    subst hca
    cases rest with
    | nil => cases h
    | cons value rest =>
        cases h
        exact ⟨hone value rest, .ca value, trivial, rfl, rfl⟩
  rw [if_neg hca] at h
  cases h

theorem parseArgument_complete (o : TradingOptions) {option : TradingOption}
    (hvalid : option.Valid) : ∃ argument values, option.render = argument :: values ∧
      ∀ rest, o.parseArgument argument (values ++ rest) =
        .ok (apply o option, values.length) := by
  cases option with
  | replay file => exact ⟨_, _, rfl, fun rest => by simp [parseArgument, apply]⟩
  | dpdk => exact ⟨_, _, rfl, fun rest => by simp [parseArgument, apply]⟩
  | rxCpu text =>
      obtain ⟨n, hlt, hnumeral⟩ := hvalid
      have hparsed := parseCpuIndex_eq_some.mpr ⟨n, hlt, hnumeral, rfl⟩
      exact ⟨_, _, rfl, fun rest => by simp [parseArgument, apply, hparsed, hnumeral.value]⟩
  | pipelineCpu text =>
      obtain ⟨n, hlt, hnumeral⟩ := hvalid
      have hparsed := parseCpuIndex_eq_some.mpr ⟨n, hlt, hnumeral, rfl⟩
      exact ⟨_, _, rfl, fun rest => by simp [parseArgument, apply, hparsed, hnumeral.value]⟩
  | execution mode =>
      cases mode with
      | recording =>
          exact ⟨_, _, rfl, fun rest => by simp [parseArgument, apply, ExecutionMode.text]⟩
      | tls => exact ⟨_, _, rfl, fun rest => by simp [parseArgument, apply, ExecutionMode.text]⟩
  | host address => exact ⟨_, _, rfl, fun rest => by simp [parseArgument, apply]⟩
  | port text =>
      obtain ⟨n, hlt, hne, hnumeral⟩ := hvalid
      have hparsed := parsePort_eq_some.mpr ⟨n, hlt, hne, hnumeral, rfl⟩
      exact ⟨_, _, rfl, fun rest => by simp [parseArgument, apply, hparsed, hnumeral.value]⟩
  | ca path => exact ⟨_, _, rfl, fun rest => by simp [parseArgument, apply]⟩

theorem text_injective {mode mode' : ExecutionMode} (h : mode.text = mode'.text) :
    mode = mode' := by
  cases mode <;> cases mode' <;> simp_all [ExecutionMode.text]

theorem render_injective {option option' : TradingOption} (h : option.render = option'.render) :
    option = option' := by
  cases option <;> cases option' <;> simp_all [render]
  exact text_injective h

theorem readBy : grammar.ReadBy parseArgument where
  sound := fun _ _ _ _ _ h => parseArgument_sound h
  complete := fun o _ hvalid => o.parseArgument_complete hvalid
  injective := fun _ _ h => render_injective h

/-- The last option of a kind counts. -/
theorem foldl_apply (options : List TradingOption) :
    options.foldl apply {} = settings options := by
  induction options using List.reverseRecOn with
  | nil => rfl
  | append_singleton options option ih =>
      rw [List.foldl_append, List.foldl_cons, List.foldl_nil, ih]
      cases option <;>
        simp [apply, settings, mode?, replayFile?, rxCpu?, pipelineCpu?, execution?, host?, port?,
          ca?]

theorem settings_replay {options : List TradingOption}
    (h : (settings options).mode = some .replay) : (settings options).replayFile ≠ none := by
  obtain ⟨option, hmem, hoption⟩ := List.mem_filterMap.mp (List.mem_of_getLast? h)
  have hfile : ∃ file, option = .replay file := by
    cases option with
    | replay file => exact ⟨file, rfl⟩
    | _ => cases hoption
  obtain ⟨file, rfl⟩ := hfile
  intro hnone
  have hnil := List.getLast?_eq_none_iff.mp hnone
  have hin : file ∈ options.filterMap replayFile? := List.mem_filterMap.mpr ⟨_, hmem, rfl⟩
  rw [hnil] at hin
  exact List.not_mem_nil hin

theorem check_ok_iff {o o' : TradingOptions} : o.check = .ok o' ↔ o' = o ∧ o.Complete := by
  unfold check
  constructor
  · intro h
    cases hmode : o.mode with
    | none =>
        rw [hmode] at h
        cases h
    | some mode =>
        rw [hmode] at h
        dsimp only at h
        split_ifs at h with hfile hrx hport hca
        cases h
        have hsome : o.mode ≠ none := by
          rw [hmode]
          exact Option.some_ne_none mode
        refine ⟨rfl, hsome, fun hreplay => ?_, fun htls => ?_⟩
        · have heq : mode = .replay := Option.some.inj (hmode.symm.trans hreplay)
          exact ⟨fun hnone => hfile ⟨heq, hnone⟩, by_contra fun hsome => hrx ⟨heq, hsome⟩⟩
        · exact ⟨fun hzero => hport ⟨htls, hzero⟩, fun hempty => hca ⟨htls, hempty⟩⟩
  · rintro ⟨rfl, hcomplete⟩
    obtain ⟨mode, hmode⟩ := Option.ne_none_iff_exists'.mp hcomplete.mode
    rw [hmode]
    dsimp only
    have hreplay : mode = .replay → _ := fun heq => hcomplete.replay (heq ▸ hmode)
    rw [if_neg fun h => (hreplay h.1).1 h.2, if_neg fun h => h.2 (hreplay h.1).2,
      if_neg fun h => (hcomplete.tls h.1).1 h.2, if_neg fun h => (hcomplete.tls h.1).2 h.2]

theorem two_le_length_render (option : TradingOption) : 2 ≤ option.render.length := by
  cases option <;> simp [render]

/-- A command line with a mode has two arguments at least. -/
theorem two_le_of_mode {options : List TradingOption} {arguments : List String}
    (hwrites : grammar.Writes options arguments) (hmode : (settings options).mode ≠ none) :
    2 ≤ arguments.length := by
  obtain ⟨mode, hmode⟩ := Option.ne_none_iff_exists'.mp hmode
  obtain ⟨option, hmem, -⟩ := List.mem_filterMap.mp (List.mem_of_getLast? hmode)
  have hsub : option.render.Sublist arguments := by
    rw [hwrites.arguments]
    exact List.sublist_flatten_of_mem (List.mem_map_of_mem hmem)
  exact (two_le_length_render option).trans hsub.length_le

theorem parse_ok_iff {arguments : List String} {o : TradingOptions} :
    parse arguments = .ok o ↔
      ∃ options, grammar.Writes options arguments ∧ o = settings options ∧ o.Complete := by
  unfold parse
  constructor
  · intro h
    by_cases hfew : arguments.length + 1 < 3
    · rw [if_pos hfew] at h
      cases h
    · rw [if_neg hfew, bind_eq_ok] at h
      obtain ⟨read, hread, hcheck⟩ := h
      obtain ⟨options, hwrites, rfl⟩ := readBy.ok_iff.mp hread
      obtain ⟨rfl, hcomplete⟩ := check_ok_iff.mp hcheck
      exact ⟨options, hwrites, foldl_apply options, hcomplete⟩
  · rintro ⟨options, hwrites, rfl, hcomplete⟩
    have htwo := two_le_of_mode hwrites hcomplete.mode
    rw [if_neg (by omega), bind_eq_ok]
    refine ⟨settings options, readBy.ok_iff.mpr ⟨options, hwrites, (foldl_apply options).symm⟩, ?_⟩
    exact check_ok_iff.mpr ⟨rfl, hcomplete⟩

theorem settings_options {o : TradingOptions} (h : o.Complete) : settings o.options = o := by
  obtain ⟨hmode, hreplay, -⟩ := h
  rw [← foldl_apply]
  obtain ⟨mode, file, rx, pipeline, execution, host, port, ca⟩ := o
  -- the options are folded in one after the other, and each sets its own field
  have hmodes : (mode = some .replay ∧ file ≠ none ∧ rx = none) ∨ mode = some .dpdk := by
    cases mode with
    | none => exact absurd rfl hmode
    | some mode =>
        cases mode with
        | replay => exact .inl ⟨rfl, hreplay rfl⟩
        | dpdk => exact .inr rfl
  rcases hmodes with ⟨rfl, hfile, rfl⟩ | rfl
  · obtain ⟨file, rfl⟩ := Option.ne_none_iff_exists'.mp hfile
    cases pipeline <;> by_cases hport : port = 0 <;> simp [options, apply, hport]
  · cases file <;> cases rx <;> cases pipeline <;> by_cases hport : port = 0 <;>
      simp [options, apply, hport]

theorem valid_options (o : TradingOptions) : ∀ option ∈ o.options, option.Valid := by
  have hcpu : ∀ cpu : UInt64, ∃ n < 2 ^ 64, Numeral cpu.toNat.repr n :=
    fun cpu => ⟨cpu.toNat, cpu.toNat_lt, numeral_repr _⟩
  have hport : ∀ port : UInt16, port ≠ 0 → ∃ n < 2 ^ 16, n ≠ 0 ∧ Numeral port.toNat.repr n :=
    fun port hne => ⟨port.toNat, port.toNat_lt,
      fun hzero => hne (UInt16.toNat_inj.mp hzero), numeral_repr _⟩
  unfold options
  simp only [List.forall_mem_append, List.forall_mem_map, List.forall_mem_cons]
  refine ⟨⟨⟨⟨⟨⟨fun _ _ => trivial, ?_⟩, fun cpu _ => hcpu cpu⟩, fun cpu _ => hcpu cpu⟩,
    trivial, trivial, fun _ h => absurd h List.not_mem_nil⟩, ?_⟩, trivial,
    fun _ h => absurd h List.not_mem_nil⟩
  · split_ifs
    · exact List.forall_mem_singleton.mpr trivial
    · exact fun _ h => absurd h List.not_mem_nil
  · split_ifs with hzero
    · exact fun _ h => absurd h List.not_mem_nil
    · exact List.forall_mem_singleton.mpr (hport _ hzero)

/-- There is no option at the front of the arguments. -/
theorem no_option {o : TradingOptions} {argument : String} {rest : List String}
    {e : TradingArgumentError} (h : o.parseArgument argument rest = .error e)
    {option : TradingOption} (hvalid : option.Valid) : ¬ option.render <+: argument :: rest := by
  rintro ⟨behind, heq⟩
  obtain ⟨head, values, hrender, hturn⟩ := o.parseArgument_complete hvalid
  rw [hrender, List.cons_append, List.cons.injEq] at heq
  obtain ⟨rfl, rfl⟩ := heq
  cases h.symm.trans (hturn behind)

/-- A file is asked for when the mode is given, so it is there when the mode is looked at. -/
theorem check_settings_ne {options : List TradingOption} :
    (settings options).check ≠ .error .noReplayFile := by
  intro h
  unfold check at h
  cases hmode : (settings options).mode with
  | none =>
      rw [hmode] at h
      cases h
  | some mode =>
      rw [hmode] at h
      dsimp only at h
      split_ifs at h with hfile
      · obtain ⟨rfl, hnone⟩ := hfile
        exact settings_replay hmode hnone
      all_goals cases h

theorem parseArgument_ne (o : TradingOptions) (argument : String) (rest : List String) :
    o.parseArgument argument rest ≠ .error .noReplayFile := by
  intro h
  unfold parseArgument at h
  repeat' split at h
  all_goals cases h

/-- What there is to say about a command line that is not taken. -/
theorem parse_error {arguments : List String} {e : TradingArgumentError}
    (h : parse arguments = .error e) :
    e ≠ .noReplayFile ∧
      ((∃ options, grammar.Writes options arguments ∧ ¬ (settings options).Complete) ∨
        ∃ options front behind, grammar.Writes options front ∧ arguments = front ++ behind ∧
          behind ≠ [] ∧ ∀ option : TradingOption, option.Valid → ¬ option.render <+: behind) := by
  unfold parse at h
  by_cases hfew : arguments.length + 1 < 3
  · rw [if_pos hfew] at h
    cases h
    refine ⟨nofun, ?_⟩
    cases arguments with
    | nil => exact .inl ⟨[], .nil, fun hcomplete => hcomplete.mode rfl⟩
    | cons argument rest =>
        refine .inr ⟨[], [], argument :: rest, .nil, rfl, List.cons_ne_nil _ _,
          fun option _ hfront => ?_⟩
        have hle := (two_le_length_render option).trans hfront.length_le
        omega
  · rw [if_neg hfew] at h
    cases hread : readArguments parseArgument {} 0 arguments with
    | error e' =>
        rw [hread] at h
        cases h
        obtain ⟨options, front, argument, rest, hwrites, heq, hturn⟩ := readBy.error_iff.mp hread
        refine ⟨fun hne => parseArgument_ne _ argument rest (hne ▸ hturn), .inr ⟨options, front,
          argument :: rest, hwrites, heq, List.cons_ne_nil _ _, fun option hvalid => ?_⟩⟩
        exact no_option hturn hvalid
    | ok o =>
        rw [hread] at h
        obtain ⟨options, hwrites, rfl⟩ := readBy.ok_iff.mp hread
        have hcheck : (settings options).check = .error e := foldl_apply options ▸ h
        refine ⟨fun hne => check_settings_ne (hne ▸ hcheck), .inl ⟨options, hwrites, ?_⟩⟩
        intro hcomplete
        cases hcheck.symm.trans (check_ok_iff.mpr ⟨rfl, hcomplete⟩)

/-- The trading runtime takes the command lines that are options one behind the other, each in
one way, where the last of a kind counts and the settings are complete. When it does not take
one, the settings are not complete, or behind a first part that is options there is none.
"Replay mode requires an input file" is never printed. And any complete settings can be asked
for. -/
theorem trading_command_line (arguments : List String) :
    (∀ o, parse arguments = .ok o ↔
      ∃ options, grammar.Writes options arguments ∧ o = settings options ∧ o.Complete) ∧
    (∀ options options', grammar.Writes options arguments → grammar.Writes options' arguments →
      options = options') ∧
    (∀ e, parse arguments = .error e → e ≠ .noReplayFile ∧
      ((∃ options, grammar.Writes options arguments ∧ ¬ (settings options).Complete) ∨
        ∃ options front behind, grammar.Writes options front ∧ arguments = front ++ behind ∧
          behind ≠ [] ∧ ∀ option : TradingOption, option.Valid → ¬ option.render <+: behind)) ∧
    ∀ o : TradingOptions, o.Complete → parse o.arguments = .ok o := by
  refine ⟨fun o => parse_ok_iff, fun options options' h h' => readBy.writes_unique {} h h',
    fun e he => parse_error he, fun o hcomplete => ?_⟩
  exact parse_ok_iff.mpr
    ⟨o.options, ⟨o.valid_options, rfl⟩, (settings_options hcomplete).symm, hcomplete⟩

/-- The second port counts, with its zeros in front, and so does the second mode; the file stays
from the first. -/
theorem trading_command_line_last_counts :
    parse ["--mode", "replay", "day.itch", "--port", "1", "--port", "0080", "--mode", "dpdk"] =
      .ok { mode := some .dpdk, replayFile := some "day.itch", executionPort := 80 } := by
  have hone : Numeral "1" 1 := ⟨by decide, List.all_eq_true.mp (by decide), by decide⟩
  have heighty : Numeral "0080" 80 := ⟨by decide, List.all_eq_true.mp (by decide), by decide⟩
  refine ((trading_command_line _).1 _).mpr
    ⟨[.replay "day.itch", .port "1", .port "0080", .dpdk], ⟨?_, rfl⟩, rfl, ?_⟩
  · refine List.forall_mem_cons.mpr ⟨trivial, List.forall_mem_cons.mpr ⟨?_,
      List.forall_mem_cons.mpr ⟨?_, List.forall_mem_singleton.mpr trivial⟩⟩⟩
    · exact ⟨1, by omega, by omega, hone⟩
    · exact ⟨80, by omega, by omega, heighty⟩
  · exact ⟨nofun, nofun, nofun⟩

end TradingOptions

/-! ## `exchange_runtime` -/

namespace ExchangeOptions

open ExchangeOption

theorem parsePort_eq_some {text : String} {port : UInt16} :
    parsePort text = some port ↔ ∃ n < 2 ^ 16, Numeral text n ∧ port = UInt16.ofNat n := by
  unfold parsePort
  constructor
  · intro h
    split at h
    · next n hread =>
        obtain ⟨hnumeral, -⟩ := fromChars_numeral.mp hread
        split at h
        · cases h
        · exact ⟨n, by omega, hnumeral, (Option.some.inj h).symm⟩
    · cases h
  · rintro ⟨n, hlt, hnumeral, rfl⟩
    rw [fromChars_numeral.mpr ⟨hnumeral, by omega⟩]
    exact if_neg (by omega)

theorem parseArgument_sound {o o' : ExchangeOptions} {argument : String} {rest : List String}
    {values : Nat} (h : o.parseArgument argument rest = .ok (o', values)) :
    values ≤ rest.length ∧ ∃ option : ExchangeOption, option.Valid ∧
      option.render = argument :: rest.take values ∧ o' = apply o option := by
  have hone : ∀ (value : String) (rest : List String), 1 ≤ (value :: rest).length :=
    fun _ _ => Nat.succ_le_succ (Nat.zero_le _)
  unfold parseArgument at h
  by_cases hport : argument = "--port"
  · rw [if_pos hport] at h
    subst hport
    cases rest with
    | nil => cases h
    | cons value rest =>
        dsimp only at h
        cases hparsed : parsePort value with
        | none =>
            rw [hparsed] at h
            cases h
        | some port =>
            rw [hparsed] at h
            cases h
            obtain ⟨n, hlt, hnumeral, rfl⟩ := parsePort_eq_some.mp hparsed
            refine ⟨hone value rest, .port value, ⟨n, hlt, hnumeral⟩, rfl, ?_⟩
            rw [apply, hnumeral.value]
  rw [if_neg hport] at h
  by_cases hcert : argument = "--cert"
  · rw [if_pos hcert] at h
    subst hcert
    cases rest with
    | nil => cases h
    | cons value rest =>
        cases h
        exact ⟨hone value rest, .cert value, trivial, rfl, rfl⟩
  rw [if_neg hcert] at h
  by_cases hkey : argument = "--key"
  · rw [if_pos hkey] at h
    subst hkey
    cases rest with
    | nil => cases h
    | cons value rest =>
        cases h
        exact ⟨hone value rest, .key value, trivial, rfl, rfl⟩
  rw [if_neg hkey] at h
  cases h

theorem readBy : grammar.ReadBy parseArgument where
  sound := fun _ _ _ _ _ h => parseArgument_sound h
  complete := by
    intro o option hvalid
    cases option with
    | port text =>
        obtain ⟨n, hlt, hnumeral⟩ := hvalid
        have hparsed := parsePort_eq_some.mpr ⟨n, hlt, hnumeral, rfl⟩
        exact ⟨_, _, rfl, fun rest => by
          simp [parseArgument, grammar, apply, hparsed, hnumeral.value]⟩
    | cert path => exact ⟨_, _, rfl, fun rest => by simp [parseArgument, grammar, apply]⟩
    | key path => exact ⟨_, _, rfl, fun rest => by simp [parseArgument, grammar, apply]⟩
  injective := by
    intro option option' h
    cases option <;> cases option' <;> simp_all [grammar, render]

theorem foldl_apply (options : List ExchangeOption) :
    options.foldl apply {} = settings options := by
  induction options using List.reverseRecOn with
  | nil => rfl
  | append_singleton options option ih =>
      rw [List.foldl_append, List.foldl_cons, List.foldl_nil, ih]
      cases option <;> simp [apply, settings, port?, cert?, key?]

theorem check_ok_iff {o o' : ExchangeOptions} :
    o.check = .ok o' ↔ o' = o ∧ o.certificatePath ≠ "" ∧ o.privateKeyPath ≠ "" := by
  unfold check
  constructor
  · intro h
    split_ifs at h with hcert hkey
    cases h
    exact ⟨rfl, hcert, hkey⟩
  · rintro ⟨rfl, hcert, hkey⟩
    rw [if_neg hcert, if_neg hkey]

theorem parse_ok_iff {arguments : List String} {o : ExchangeOptions} :
    parse arguments = .ok o ↔ ∃ options, grammar.Writes options arguments ∧
      o = settings options ∧ o.certificatePath ≠ "" ∧ o.privateKeyPath ≠ "" := by
  rw [parse, bind_eq_ok]
  constructor
  · rintro ⟨read, hread, hcheck⟩
    obtain ⟨options, hwrites, rfl⟩ := readBy.ok_iff.mp hread
    obtain ⟨rfl, hpaths⟩ := check_ok_iff.mp hcheck
    exact ⟨options, hwrites, foldl_apply options, hpaths⟩
  · rintro ⟨options, hwrites, rfl, hpaths⟩
    exact ⟨_, readBy.ok_iff.mpr ⟨options, hwrites, (foldl_apply options).symm⟩,
      check_ok_iff.mpr ⟨rfl, hpaths⟩⟩

/-- The exchange runtime takes the command lines that are options one behind the other, each in
one way, where the last of a kind counts, with a certificate and a key. So whatever the system
and the clients do, no client of it is ever served in plaintext. -/
theorem exchange_command_line (arguments : List String) :
    (∀ o, parse arguments = .ok o ↔ ∃ options, grammar.Writes options arguments ∧
      o = settings options ∧ o.certificatePath ≠ "" ∧ o.privateKeyPath ≠ "") ∧
    (∀ options options', grammar.Writes options arguments → grammar.Writes options' arguments →
      options = options') ∧
    ∀ o stdHash replies, parse arguments = .ok o →
      Meets ExchangeRuntime.step ExchangeRuntime.Sane (o.server stdHash) replies →
      ∀ c ∈ ((o.server stdHash).run replies).everyClient, c.ssl.isSome = true := by
  refine ⟨fun o => parse_ok_iff, fun options options' h h' => readBy.writes_unique {} h h',
    fun o stdHash replies hparse hsane c hc => ?_⟩
  obtain ⟨options, -, -, hcert, hkey⟩ := parse_ok_iff.mp hparse
  have htls : (o.certificatePath != "" && o.privateKeyPath != "") = true := by
    simp [hcert, hkey]
  have hkind := (ExchangeRuntime.oneKind_run _ _ _ _ hsane).clients c hc
  exact hkind.trans htls

/-- A port with a zero in front, and two clients. -/
theorem exchange_command_line_two_clients :
    ∃ o, parse ["--cert", "a.pem", "--port", "08080", "--key", "b.pem"] = .ok o ∧
      ((o.server UInt64.toNat).run ExchangeRuntime.twoClients).everyClient.length = 2 ∧
      ∀ c ∈ ((o.server UInt64.toNat).run ExchangeRuntime.twoClients).everyClient,
        c.ssl.isSome = true := by
  have hnumeral : Numeral "08080" 8080 :=
    ⟨by decide, List.all_eq_true.mp (by decide), by decide⟩
  have h := exchange_command_line ["--cert", "a.pem", "--port", "08080", "--key", "b.pem"]
  have hparse : parse ["--cert", "a.pem", "--port", "08080", "--key", "b.pem"] =
      .ok ⟨8080, "a.pem", "b.pem"⟩ := by
    refine (h.1 _).mpr ⟨[.cert "a.pem", .port "08080", .key "b.pem"], ⟨?_, rfl⟩, rfl, ?_, ?_⟩
    · refine List.forall_mem_cons.mpr ⟨trivial, List.forall_mem_cons.mpr ⟨?_,
        List.forall_mem_singleton.mpr trivial⟩⟩
      exact ⟨8080, by omega, hnumeral⟩
    · decide
    · decide
  exact ⟨_, hparse, by decide +kernel, h.2.2 _ UInt64.toNat ExchangeRuntime.twoClients hparse
    (by decide +kernel)⟩

end ExchangeOptions

end OpenHft
