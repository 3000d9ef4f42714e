/-
# The settings that arguments choose

A request that was filled holds what its arguments spell, and every option at most once:
`Request.Holds` is kept by each item that is taken. What is chosen can therefore be read off
the items. Trees are shown if their flag is among them, and the nesting limit is the one
number given, whatever its spelling, or the one that is there without any option. A number
that could be lowered to the ceiling is refused before.

`AreOptions` singles out the arguments that choose settings and do nothing else. They may
be put in front of any operand, and every permitted choice can be made with them.
-/

import PrefixCalc.CommandLine.Run
import PrefixCalc.Proofs.CommandLine.Grammar
import PrefixCalc.Proofs.Numeral

namespace PrefixCalc

namespace CommandLine

/-! ## Numbers of levels -/

/-- A text spells a number of levels: decimal digits, with zeros in front or not, and with a
plus sign or not. -/
def SpellsLimit (text : String) (limit : Nat) : Prop :=
  ∃ digits : List Char, digits ≠ [] ∧ (∀ c ∈ digits, c.isDigit) ∧
    (text.toList = digits ∨ text.toList = '+' :: digits) ∧ Nat.ofDigitChars 10 digits 0 = limit

/-- Exactly the spellings of the permitted limits are read. -/
theorem readLimit?_eq_some_iff {text : String} {limit : Nat} :
    readLimit? text = some limit ↔
      SpellsLimit text limit ∧ 1 ≤ limit ∧ limit ≤ Settings.ceiling := by
  refine ⟨fun h => ⟨?_, mem_of_readLimit? h⟩, fun h => ?_⟩
  · unfold readLimit? at h
    split at h
    · next n hn =>
      rw [Option.ite_none_right_eq_some] at h
      obtain ⟨hmem, hlimit⟩ := h
      cases hlimit
      obtain ⟨digits, m, hread, ⟨-, rfl⟩ | ⟨htext, rfl⟩⟩ :=
        Numeral.exists_natural?_of_integer? hn
      · -- A number behind a minus sign is below the least limit.
        omega
      · obtain ⟨hne, hdigits, hvalue⟩ := Numeral.natural?_eq_some_iff.1 hread
        exact ⟨digits, hne, hdigits, htext, hvalue⟩
    · cases h
  · obtain ⟨⟨digits, hne, hdigits, htext, hvalue⟩, hlimit⟩ := h
    have hread := Numeral.natural?_eq_some_iff.2 ⟨hne, hdigits, hvalue⟩
    have hinteger : Numeral.integer? text.toList = some (limit : Int) := by
      rcases htext with htext | htext
      · obtain ⟨c, rest, rfl⟩ := List.exists_cons_of_ne_nil hne
        rw [htext, Numeral.integer?_of_isDigit (hdigits c List.mem_cons_self), hread]
        rfl
      · rw [htext, Numeral.integer?, hread]
        rfl
    rw [readLimit?, hinteger]
    exact if_pos (by omega)

theorem spellsLimit_toDigits (limit : Nat) :
    SpellsLimit (String.ofList (Nat.toDigits 10 limit)) limit := by
  obtain ⟨hne, hdigits, hvalue⟩ := Numeral.natural?_eq_some_iff.1 (Numeral.natural?_toDigits limit)
  exact ⟨_, hne, hdigits, .inl String.toList_ofList, hvalue⟩

/-! ## What a request holds -/

/-- A request holds what some items say, and every option at most once. -/
structure Request.Holds (request : Request) (items : List Item) : Prop where
  /-- The flag for files is set once, or not at all. -/
  file : items.count (.flag .file) = request.file.toNat
  /-- The flag for trees is set once, or not at all. -/
  tree : items.count (.flag .tree) = request.tree.toNat
  /-- The limit is given once, or not at all, and is permitted. -/
  limit : (items.filterMap Item.limit?).map readLimit? = request.limit.toList.map some
  /-- There is one operand, or none. -/
  operand : items.filterMap Item.operand? = request.operand.toList

namespace Request.Holds

variable {request next filled : Request} {items front : List Item} {item : Item}

theorem empty : ({} : Request).Holds [] := ⟨rfl, rfl, rfl, rfl⟩

theorem addFlag {flag : Flag} (h : request.Holds items) (hadd : request.addFlag flag = .ok next) :
    next.Holds (items ++ [.flag flag]) := by
  obtain ⟨hfile, htree, hlimit, hoperand⟩ := h
  cases flag with
  | file =>
    rw [Request.addFlag] at hadd
    split at hadd
    · cases hadd
    · next hnew =>
      cases hadd
      refine ⟨?_, ?_, ?_, ?_⟩ <;> simp_all [Item.limit?, Item.operand?]
  | tree =>
    rw [Request.addFlag] at hadd
    split at hadd
    · cases hadd
    · next hnew =>
      cases hadd
      refine ⟨?_, ?_, ?_, ?_⟩ <;> simp_all [Item.limit?, Item.operand?]
  | help => cases hadd
  | version => cases hadd

theorem addLimit {text : String} (h : request.Holds items)
    (hadd : request.addLimit text = .ok next) : next.Holds (items ++ [.limit text]) := by
  obtain ⟨hfile, htree, hlimit, hoperand⟩ := h
  rw [Request.addLimit] at hadd
  split at hadd
  · next limit hnone hread =>
    cases hadd
    refine ⟨?_, ?_, ?_, ?_⟩ <;> simp_all [Item.limit?, Item.operand?]
  · cases hadd
  · cases hadd

theorem addOperand {text : String} (h : request.Holds items)
    (hadd : request.addOperand text = .ok next) : next.Holds (items ++ [.operand text]) := by
  obtain ⟨hfile, htree, hlimit, hoperand⟩ := h
  rw [Request.addOperand] at hadd
  split at hadd
  · next hnone =>
    cases hadd
    refine ⟨?_, ?_, ?_, ?_⟩ <;> simp_all [Item.limit?, Item.operand?]
  · cases hadd

/-- A request that takes one more item holds one more. -/
theorem add (h : request.Holds items) (hadd : request.add item = .ok next) :
    next.Holds (items ++ [item]) := by
  cases item with
  | flag flag => exact h.addFlag hadd
  | limit text => exact h.addLimit hadd
  | operand text => exact h.addOperand hadd

/-- A request that takes items holds all of them in the end. -/
theorem foldlM_add (h : request.Holds front)
    (hfill : items.foldlM Request.add request = .ok filled) : filled.Holds (front ++ items) := by
  induction items generalizing request front with
  | nil =>
    cases hfill
    rwa [List.append_nil]
  | cons item rest ih =>
    rw [List.foldlM_cons, Stop.bind_eq_ok_iff] at hfill
    obtain ⟨next, hnext, hrest⟩ := hfill
    rw [List.append_cons]
    exact ih (h.add hnext) hrest

end Request.Holds

/-! ## What is chosen -/

/-- The settings that a command evaluates with, if it evaluates anything. -/
def Command.settings? : Command → Option Settings
  | .expression _ settings | .file _ settings | .prompt settings => some settings
  | .help | .version | .refuse _ => none

/-- Some items choose settings: trees are shown if they say so, and the nesting limit is the
only number that they give, or the usual one if they give none. -/
structure Chooses (items : List Item) (settings : Settings) : Prop where
  /-- The flag for trees decides whether they are shown. -/
  showTrees : settings.showTrees = true ↔ .flag .tree ∈ items
  /-- The nesting limit is what its option says, or the usual one without the option. -/
  nestingLimit : items.filterMap Item.limit? = [] ∧ settings.nestingLimit = 256 ∨
    ∃ text, items.filterMap Item.limit? = [text] ∧ SpellsLimit text settings.nestingLimit

theorem Request.settings_of_limit_eq_none {request : Request} (h : request.limit = none) :
    request.settings = ⟨256, request.tree⟩ := by
  rw [settings, h]
  rfl

/-- A limit that was taken is not lowered to the ceiling. -/
theorem Request.settings_of_limit_eq_some {request : Request} {limit : Nat}
    (h : request.limit = some limit) (hle : limit ≤ Settings.ceiling) :
    request.settings = ⟨limit, request.tree⟩ := by
  rw [settings, h]
  exact congrArg (Settings.mk · request.tree) (Nat.min_eq_left hle)

/-- The settings of a request are chosen by the items that it holds, and the nesting limit
is one of the permitted ones. -/
theorem Request.Holds.chooses {request : Request} {items : List Item} (h : request.Holds items) :
    Chooses items request.settings ∧
      1 ≤ request.settings.nestingLimit ∧ request.settings.nestingLimit ≤ Settings.ceiling := by
  have htree : request.tree = true ↔ .flag .tree ∈ items := by
    rw [← List.one_le_count_iff, h.tree]
    cases request.tree <;> simp
  have hlimits := h.limit
  cases hlimit : request.limit with
  | none =>
    rw [hlimit, Option.toList_none, List.map_nil, List.map_eq_nil_iff] at hlimits
    rw [settings_of_limit_eq_none hlimit]
    exact ⟨⟨htree, .inl ⟨hlimits, rfl⟩⟩, show 1 ≤ 256 by decide, show 256 ≤ 1024 by decide⟩
  | some limit =>
    rw [hlimit, Option.toList_some, List.map_singleton, List.map_eq_singleton_iff] at hlimits
    obtain ⟨text, htext, hread⟩ := hlimits
    obtain ⟨hspells, hone, hle⟩ := readLimit?_eq_some_iff.1 hread
    rw [settings_of_limit_eq_some hlimit hle]
    exact ⟨⟨htree, .inr ⟨text, htext, hspells⟩⟩, hone, hle⟩

/-- A command that evaluates comes from a request that was filled. -/
theorem exists_request_of_settings? {arguments : List String} {settings : Settings}
    (h : (Command.ofArguments arguments).settings? = some settings) :
    ∃ request, Request.addArguments {} arguments = .ok request ∧
      Command.ofArguments arguments = request.command ∧ request.settings = settings := by
  unfold Command.ofArguments at h ⊢
  split at h
  · next request hfill =>
    refine ⟨request, hfill, rfl, ?_⟩
    unfold Request.command at h
    split at h
    · exact Option.some.inj h
    · exact Option.some.inj h
    · cases h
    · exact Option.some.inj h
  · cases h
  · cases h
  · cases h

/-- Arguments that lead to an evaluation spell items, and these choose the settings. -/
theorem chooses_of_settings? {arguments : List String} {settings : Settings}
    (h : (Command.ofArguments arguments).settings? = some settings) :
    (∃ items, Spells arguments items) ∧ (∀ items, Spells arguments items → Chooses items settings) ∧
      1 ≤ settings.nestingLimit ∧ settings.nestingLimit ≤ Settings.ceiling := by
  obtain ⟨request, hfill, -, rfl⟩ := exists_request_of_settings? h
  have hholds : ∀ items, Spells arguments items → request.Holds items := by
    intro items hitems
    rw [hitems.addArguments_eq] at hfill
    exact Request.Holds.empty.foldlM_add hfill
  obtain ⟨items, hitems⟩ := exists_spells_of_addArguments hfill
  exact ⟨⟨items, hitems⟩, fun other hother => (hholds other hother).chooses.1,
    (hholds items hitems).chooses.2⟩

/-- The items that arguments spell decide on the command. -/
theorem Spells.ofArguments_eq {arguments : List String} {items : List Item} {request : Request}
    (h : Spells arguments items) (hfill : items.foldlM Request.add {} = .ok request) :
    Command.ofArguments arguments = request.command := by
  rw [Command.ofArguments, h.addArguments_eq, hfill]

/-! ## Options alone -/

/-- Arguments that choose settings and do nothing else: options, which nothing but more
arguments has to follow. -/
def AreOptions (options : List String) (settings : Settings) : Prop :=
  "--" ∉ options ∧ Command.ofArguments options = .prompt settings

namespace AreOptions

variable {options : List String} {settings : Settings}

theorem exists_request (h : AreOptions options settings) :
    ∃ request : Request, Request.addArguments {} options = .ok request ∧
      request.operand = none ∧ request.file = false ∧ request.settings = settings := by
  obtain ⟨-, hprompt⟩ := h
  have hsome : (Command.ofArguments options).settings? = some settings := by
    rw [hprompt]
    rfl
  obtain ⟨request, hfill, hcommand, hsettings⟩ := exists_request_of_settings? hsome
  refine ⟨request, hfill, ?_⟩
  rw [hcommand, Request.command] at hprompt
  split at hprompt
  · cases hprompt
  · cases hprompt
  · cases hprompt
  · next hoperand hfile => exact ⟨hoperand, hfile, hsettings⟩

/-- Arguments behind options are taken by the request that the options fill. -/
theorem ofArguments_append {request filled : Request} {back : List String} {items : List Item}
    (h : AreOptions options settings) (hfill : Request.addArguments {} options = .ok request)
    (hback : Spells back items) (hmore : items.foldlM Request.add request = .ok filled) :
    Command.ofArguments (options ++ back) = filled.command := by
  obtain ⟨front, hfront⟩ := exists_spells_of_addArguments hfill
  apply (hfront.append h.1 hback).ofArguments_eq
  rw [List.foldlM_append, ← hfront.addArguments_eq, hfill]
  exact hmore

/-- Options may stand in front of an expression. -/
theorem ofArguments_expression (h : AreOptions options settings) (source : String) :
    Command.ofArguments (options ++ ["--", source]) = .expression source settings := by
  obtain ⟨request, hfill, hoperand, hfile, hsettings⟩ := h.exists_request
  have hmore : [Item.operand source].foldlM Request.add request =
      .ok { request with operand := some source } := by
    rw [List.foldlM_cons, Request.add, Request.addOperand, hoperand]
    rfl
  rw [h.ofArguments_append hfill (.hyphens [source]) hmore, Request.command, hfile, ← hsettings]
  rfl

/-- A run with options in front of an expression is the response to that expression. -/
theorem run_expression (h : AreOptions options settings) (readFile : String → Option ByteArray)
    (input : ByteArray) (source : String) :
    run readFile input (options ++ ["--", source]) = .success (reply settings source) := by
  rw [run, h.ofArguments_expression]
  rfl

/-- Options may stand in front of the path of a file. -/
theorem ofArguments_file (h : AreOptions options settings) (path : String) :
    Command.ofArguments (options ++ ["--file", "--", path]) = .file path settings := by
  obtain ⟨request, hfill, hoperand, hfile, hsettings⟩ := h.exists_request
  have hspells : Spells ["--file", "--", path] [.flag .file, .operand path] :=
    .name .file (.hyphens [path])
  have hmore : [Item.flag .file, .operand path].foldlM Request.add request =
      .ok { request with file := true, operand := some path } := by
    simp [Request.add, Request.addFlag, Request.addOperand, hfile, hoperand, bind, Except.bind,
      pure, Except.pure]
  rw [h.ofArguments_append hfill hspells hmore, Request.command, ← hsettings]
  rfl

end AreOptions

/-- Every permitted choice can be made by options. -/
theorem exists_areOptions {settings : Settings} (hone : 1 ≤ settings.nestingLimit)
    (hle : settings.nestingLimit ≤ Settings.ceiling) : ∃ options, AreOptions options settings := by
  obtain ⟨limit, showTrees⟩ := settings
  let text := String.ofList (Nat.toDigits 10 limit)
  have hread : readLimit? text = some limit :=
    readLimit?_eq_some_iff.2 ⟨spellsLimit_toDigits limit, hone, hle⟩
  have hhyphens : text ≠ "--" := by
    intro heq
    rw [heq] at hread
    cases hread
  cases showTrees with
  | false =>
    refine ⟨["--max-depth", text], by simp [hhyphens.symm], ?_⟩
    have hfill : [Item.limit text].foldlM Request.add {} = .ok { limit := some limit } := by
      rw [List.foldlM_cons, Request.add, Request.addLimit, hread]
      rfl
    rw [(Spells.limit text .nil).ofArguments_eq hfill]
    exact congrArg Command.prompt (Request.settings_of_limit_eq_some rfl hle)
  | true =>
    refine ⟨["-t", "--max-depth", text], by simp [hhyphens.symm], ?_⟩
    have hflags : [Flag.tree] ≠ [] := by decide
    have hspells : Spells ["-t", "--max-depth", text] [.flag .tree, .limit text] :=
      .letters hflags (.limit text .nil)
    have hfill : [Item.flag .tree, .limit text].foldlM Request.add {} =
        .ok { tree := true, limit := some limit } := by
      change ({ tree := true } : Request).addLimit text >>= _ = _
      rw [Request.addLimit, hread]
      rfl
    rw [hspells.ofArguments_eq hfill]
    exact congrArg Command.prompt (Request.settings_of_limit_eq_some rfl hle)

end CommandLine

end PrefixCalc
