/-
Which browsers a workspace hands out. A browser that is asked for with options is a new one of the cube that
was meant. One that is asked for without options is the one that the first such request for a cube of that
name has made since the workspace was closed last. As long as cubes are asked for by name that is the cube
that is meant, because the names in a model lead to one cube each. A finished cube, however, is handed over
as it is, and need not be the first of its name: then the browser that is handed out is of the other cube.
-/

import Mathlib
import Olap.Proofs.Creations
import Olap.Proofs.Registry
import Olap.Workspace

namespace Olap

namespace Workspace

variable {σ : Type}

/-! ### Calls -/

/-- What is asked of a workspace. -/
inductive Call
  | browser (choice : CubeChoice) (options : Row)
  | close

/-- The workspace after a call. A request that is refused leaves it as it is. -/
def after (w : Workspace σ) : Call → Workspace σ
  | .browser choice options =>
    match w.browser choice options with
    | .ok (_, later) => later
    | .error _ => w
  | .close => w.close

/-- The workspace after calls, one after the other. -/
def afterAll (w : Workspace σ) (calls : List Call) : Workspace σ := calls.foldl after w

/-- The cubes that were asked for without options since the workspace was closed last. -/
def askedAfter (w : Workspace σ) (asked : List Cube) : Call → List Cube
  | .browser choice options =>
    match w.cube choice with
    | .ok cube => if options.isEmpty then asked ++ [cube] else asked
    | .error _ => asked
  | .close => []

/-- The cubes that were asked for without options in calls, after the last of them that closes. -/
def asked (w : Workspace σ) (calls : List Call) : List Cube := calls.foldl w.askedAfter []

/-- The first of the cubes that has the name of a cube, or else the cube. -/
def firstLike (cubes : List Cube) (cube : Cube) : Cube :=
  (cubes.find? (·.name == cube.name)).getD cube

theorem firstLike_eq_iff {cubes : List Cube} {cube : Cube} :
    firstLike cubes cube = cube ↔
      ∀ first, cubes.find? (·.name == cube.name) = some first → first = cube := by
  unfold firstLike
  cases cubes.find? (·.name == cube.name) <;> simp

/-! ### What is kept from call to call -/

/-- A workspace that has come of another hands out the browsers of those of the cubes that are the first of
their names. -/
structure HandsOut (w u : Workspace σ) (store : Store (σ × Database)) (cubes : List Cube) : Prop where
  model : u.model = w.model
  config : u.config = w.config
  backend : u.backend.store? = some store
  shared : ∀ name, (Record.get? u.shared name).map (·.browser) =
    (cubes.find? (·.name == name)).map fun cube => ⟨cube, some store, browserOptions w.config cube []⟩

variable {w u : Workspace σ} {store : Store (σ × Database)} {cubes : List Cube}

namespace HandsOut

theorem cube_eq (handsOut : HandsOut w u store cubes) (choice : CubeChoice) :
    u.cube choice = w.cube choice := by
  cases choice with
  | named name => exact congrArg (·.cube name) handsOut.model
  | finished cube => rfl

theorem browser_of_error (handsOut : HandsOut w u store cubes) {choice : CubeChoice} {fault : Fault}
    (unknown : w.cube choice = .error fault) (options : Row) : u.browser choice options = .error fault := by
  rw [browser, handsOut.cube_eq, unknown]

/-- A browser that is not shared is a new one of the cube that is meant. -/
theorem browser_of_options (handsOut : HandsOut w u store cubes) {choice : CubeChoice} {cube : Cube}
    (known : w.cube choice = .ok cube) {options : Row} (given : options.isEmpty = false) :
    u.browser choice options = .ok (u.newBrowser store cube options) := by
  rw [browser, handsOut.cube_eq, known]
  simp only [handsOut.backend, sharedBrowser?, given, Bool.false_eq_true, if_false]

theorem browser_of_first (handsOut : HandsOut w u store cubes) {choice : CubeChoice} {cube : Cube}
    (known : w.cube choice = .ok cube) (first : cubes.find? (·.name == cube.name) = none) :
    u.browser choice [] = .ok (u.newBrowser store cube []) := by
  have absent : Record.get? u.shared cube.name = none := by
    have kept := handsOut.shared cube.name
    rwa [first, Option.map_none, Option.map_eq_none_iff] at kept
  rw [browser, handsOut.cube_eq, known]
  simp only [handsOut.backend, sharedBrowser?, List.isEmpty_nil, if_true, absent]

theorem browser_of_later (handsOut : HandsOut w u store cubes) {choice : CubeChoice} {cube first : Cube}
    (known : w.cube choice = .ok cube) (found : cubes.find? (·.name == cube.name) = some first) :
    ∃ opened, u.browser choice [] = .ok (opened, u) ∧ Record.get? u.shared cube.name = some opened ∧
      opened.browser = ⟨first, some store, browserOptions w.config first []⟩ := by
  have kept := handsOut.shared cube.name
  rw [found, Option.map_some, Option.map_eq_some_iff] at kept
  obtain ⟨opened, present, same⟩ := kept
  refine ⟨opened, ?_, present, same⟩
  rw [browser, handsOut.cube_eq, known]
  simp only [handsOut.backend, sharedBrowser?, List.isEmpty_nil, if_true, present]

theorem newBrowser_of_options (handsOut : HandsOut w u store cubes) (cube : Cube) {options : Row}
    (given : options.isEmpty = false) : HandsOut w (u.newBrowser store cube options).2 store cubes where
  model := handsOut.model
  config := handsOut.config
  backend := handsOut.backend
  shared := by
    simp only [newBrowser, given, Bool.false_eq_true, if_false]
    exact handsOut.shared

theorem newBrowser_of_first (handsOut : HandsOut w u store cubes) {cube : Cube}
    (first : cubes.find? (·.name == cube.name) = none) :
    HandsOut w (u.newBrowser store cube []).2 store (cubes ++ [cube]) where
  model := handsOut.model
  config := handsOut.config
  backend := handsOut.backend
  shared name := by
    simp only [newBrowser, List.isEmpty_nil, if_true, List.find?_append]
    by_cases same : cube.name = name
    · subst same
      simp [Record.get?_set_self, first, handsOut.config]
    · rw [Record.get?_set_of_ne _ _ same, handsOut.shared name]
      simp [same]

theorem of_later (handsOut : HandsOut w u store cubes) {cube first : Cube}
    (found : cubes.find? (·.name == cube.name) = some first) : HandsOut w u store (cubes ++ [cube]) where
  model := handsOut.model
  config := handsOut.config
  backend := handsOut.backend
  shared name := by
    rw [handsOut.shared name, List.find?_append]
    by_cases same : cube.name = name
    · subst same
      rw [found, Option.some_or]
    · simp [same]

/-- What a call leaves behind. -/
theorem after (handsOut : HandsOut w u store cubes) (call : Call) :
    HandsOut w (u.after call) store (w.askedAfter cubes call) := by
  cases call with
  | close =>
    refine ⟨handsOut.model, handsOut.config, handsOut.backend, fun name => ?_⟩
    rfl
  | browser choice options =>
    rw [Workspace.after, askedAfter]
    cases known : w.cube choice with
    | error fault => simpa only [handsOut.browser_of_error known] using handsOut
    | ok cube =>
      cases given : options.isEmpty with
      | false =>
        simp only [handsOut.browser_of_options known given, Bool.false_eq_true, if_false]
        exact handsOut.newBrowser_of_options cube given
      | true =>
        obtain rfl := List.isEmpty_iff.1 given
        simp only [if_true]
        cases found : cubes.find? (·.name == cube.name) with
        | none =>
          simp only [handsOut.browser_of_first known found]
          exact handsOut.newBrowser_of_first found
        | some first =>
          obtain ⟨opened, same, -, -⟩ := handsOut.browser_of_later known found
          simp only [same]
          exact handsOut.of_later found

/-- What calls leave behind. -/
theorem afterAll (handsOut : HandsOut w u store cubes) (calls : List Call) :
    HandsOut w (u.afterAll calls) store (calls.foldl w.askedAfter cubes) := by
  induction calls generalizing u cubes with
  | nil => exact handsOut
  | cons call rest inductionHypothesis => exact inductionHypothesis (handsOut.after call)

end HandsOut

theorem handsOut_of_created {files : Files} {source : Config.Source} {model : Description}
    {given : Option (Store σ)} {start : σ} (created : create files source model given start = .ok w)
    (stored : w.backend.store? = some store) : HandsOut w w store [] := by
  have fresh : w.shared = [] := by
    unfold create at created
    cases read : Config.read files source with
    | error fault => simp [read] at created
    | ok config =>
      rw [read] at created
      cases levelled : logLevelOf files config.workspace with
      | error failure => simp [levelled] at created
      | ok level =>
        simp only [levelled] at created
        cases opened : openModel files config model with
        | error fault => simp [opened] at created
        | ok pair =>
          simp only [opened] at created
          cases backed : openBackend config given with
          | error fault => simp [backed, Except.map] at created
          | ok backend =>
            rw [backed] at created
            exact Except.ok.inj created ▸ rfl
  exact ⟨rfl, rfl, stored, fun name => by rw [fresh]; rfl⟩

/-- A browser stays shared until the workspace is closed. -/
theorem get?_shared_after {name : String} {opened : OpenBrowser σ}
    (kept : Record.get? u.shared name = some opened) {call : Call} (lasting : call ≠ .close) :
    Record.get? (u.after call).shared name = some opened := by
  cases call with
  | close => exact absurd rfl lasting
  | browser choice options =>
    rw [after, browser]
    cases u.cube choice with
    | error fault => exact kept
    | ok cube =>
      cases stored : u.backend.store? with
      | none => exact kept
      | some store =>
        cases shared : u.sharedBrowser? cube options with
        | some other => simpa only [stored, shared] using kept
        | none =>
          simp only [shared, newBrowser]
          cases given : options.isEmpty with
          | false => exact kept
          | true =>
            rw [sharedBrowser?, if_pos given] at shared
            have other : cube.name ≠ name := by
              rintro rfl
              exact nomatch shared.symm.trans kept
            exact (Record.get?_set_of_ne _ _ other).trans kept

theorem get?_shared_afterAll {name : String} {opened : OpenBrowser σ}
    (kept : Record.get? u.shared name = some opened) {calls : List Call} (lasting : .close ∉ calls) :
    Record.get? (u.afterAll calls).shared name = some opened := by
  induction calls generalizing u with
  | nil => exact kept
  | cons call rest inductionHypothesis =>
    rw [List.mem_cons, not_or] at lasting
    exact inductionHypothesis (get?_shared_after kept (Ne.symm lasting.1)) lasting.2

/-! ### What is handed out -/

namespace HandsOut

/-- A request for a cube that is known is met by the browser of the first cube like it, if no options are
given, and by one of itself, if any are. -/
theorem exists_browser (handsOut : HandsOut w u store cubes) {choice : CubeChoice} {cube : Cube}
    (known : w.cube choice = .ok cube) (options : Row) :
    ∃ opened later, u.browser choice options = .ok (opened, later) ∧
      opened.browser =
        ⟨if options.isEmpty then firstLike cubes cube else cube, some store,
          browserOptions w.config (if options.isEmpty then firstLike cubes cube else cube) options⟩ ∧
      (options = [] → Record.get? later.shared cube.name = some opened) := by
  cases given : options.isEmpty with
  | false =>
    refine ⟨_, _, handsOut.browser_of_options known given, ?_, ?_⟩
    · simp [handsOut.config]
    · rintro rfl
      cases given
  | true =>
    obtain rfl := List.isEmpty_iff.1 given
    cases found : cubes.find? (·.name == cube.name) with
    | none =>
      refine ⟨_, _, handsOut.browser_of_first known found, ?_, fun _ => ?_⟩
      · simp [firstLike, found, handsOut.config]
      · simp [Record.get?_set_self]
    | some first =>
      obtain ⟨opened, same, present, made⟩ := handsOut.browser_of_later known found
      refine ⟨opened, u, same, ?_, fun _ => present⟩
      simpa [firstLike, found] using made

end HandsOut

theorem browser_of_shared {choice : CubeChoice} {cube : Cube} (known : u.cube choice = .ok cube)
    (stored : u.backend.store? = some store) {opened : OpenBrowser σ}
    (kept : Record.get? u.shared cube.name = some opened) :
    u.browser choice [] = .ok (opened, u) := by
  rw [browser, known]
  simp only [stored, sharedBrowser?, List.isEmpty_nil, if_true, kept]

/-- The table of a cube, unless it is told another. -/
def ownTable (cube : Cube) : String := (cube.factTable.filter (!·.isEmpty)).getD cube.name

/-- The view that a browser of a cube is about, if any: the one that is given, or the one that the
configuration makes of its prefix and the name of the cube. -/
def view? (config : Config) (cube : Cube) (options : Row) : Option String :=
  match Record.get? options "view_name" with
  | some name => name.text?.filter (!·.isEmpty)
  | none => ((config.store.bind (·.viewPrefix)).filter (!·.isEmpty)).map (· ++ cube.name)

theorem get?_withDefault_of_ne (options : Row) {key other : String} (value : Value)
    (different : key ≠ other) :
    Record.get? (withDefault options key value) other = Record.get? options other := by
  unfold withDefault
  split
  · rfl
  · exact Record.get?_set_of_ne _ _ different

theorem get?_withDefault_self (options : Row) (key : String) (value : Value) :
    Record.get? (withDefault options key value) key = some ((Record.get? options key).getD value) := by
  unfold withDefault
  rw [Record.contains_eq_isSome_get?]
  cases found : Record.get? options key with
  | none => simp [Record.get?_set_self]
  | some other => simp [found]

theorem viewName_browserOptions (config : Config) (cube : Cube) (options : Row) :
    (browserOptions config cube options).viewName.text?.filter (!·.isEmpty) = view? config cube options := by
  unfold browserOptions BrowserOptions.ofRecord view?
  dsimp only
  rw [get?_withDefault_of_ne _ _ (by decide)]
  cases config.store with
  | none =>
    dsimp only
    cases Record.get? options "view_name" <;> rfl
  | some settings =>
    dsimp only [withStoreSettings]
    rw [get?_withDefault_of_ne _ _ (by decide), Option.bind_some]
    cases settings.viewPrefix with
    | none =>
      dsimp only
      cases Record.get? options "view_name" <;> rfl
    | some word =>
      dsimp only
      cases blank : word.isEmpty with
      | true =>
        rw [if_pos rfl]
        cases Record.get? options "view_name" <;> simp [Option.filter, blank, Datum.text?]
      | false =>
        rw [if_neg Bool.false_ne_true, get?_withDefault_self]
        have filled : (word ++ cube.name).isEmpty = false := by
          simp_all [String.isEmpty_eq_false_iff, String.append_eq_empty_iff]
        cases Record.get? options "view_name" <;> simp [Option.filter, blank, filled, Datum.text?]

theorem compiler_of_browserOptions (config : Config) (cube : Cube) (store : Option (Store (σ × Database)))
    (options : Row) :
    (⟨cube, store, browserOptions config cube options⟩ : Browser (σ × Database)).compiler =
      ⟨cube, (view? config cube options).getD (ownTable cube)⟩ := by
  rw [Browser.compiler, Compiler.of, viewName_browserOptions, ownTable]
  cases view? config cube options <;> rfl

/-- Every request for a cube that is known is met, and the browser is of that cube unless no options are given
and another cube of its name was asked for before. Its queries are about its cube, and about the cube's own
table unless a view goes before it. A request without options gives the same browser again until the workspace
is closed. -/
theorem browser_meets_request {files : Files} {source : Config.Source} {model : Description}
    {given : Option (Store σ)} {start : σ} (created : create files source model given start = .ok w)
    (stored : w.backend.store? = some store) (calls : List Call) {choice : CubeChoice} {cube : Cube}
    (known : w.cube choice = .ok cube) (options : Row) :
    ∃ opened later, (w.afterAll calls).browser choice options = .ok (opened, later) ∧
      (opened.browser.cube = cube ↔ (options = [] → firstLike (w.asked calls) cube = cube)) ∧
      opened.browser.compiler =
        ⟨opened.browser.cube,
          (view? w.config opened.browser.cube options).getD (ownTable opened.browser.cube)⟩ ∧
      (options = [] → ∀ more, .close ∉ more → ∀ again, w.cube again = .ok cube →
        ∃ last, (later.afterAll more).browser again [] = .ok (opened, last)) := by
  have handsOut := (handsOut_of_created created stored).afterAll calls
  obtain ⟨opened, later, same, made, kept⟩ := handsOut.exists_browser known options
  refine ⟨opened, later, same, ?_, ?_, ?_⟩
  · rw [made]
    cases options <;> simp [asked]
  · rw [made]
    exact compiler_of_browserOptions _ _ _ _
  · rintro rfl more lasting again knownAgain
    have further := (handsOut.after (.browser choice [])).afterAll more
    rw [after, same] at further
    exact ⟨_, browser_of_shared ((further.cube_eq again).trans knownAgain) further.backend
      (get?_shared_afterAll (kept rfl) lasting)⟩

/-! ### Cubes that are asked for by name -/

theorem find?_of_cube {m : Model} {name : Description} {cube : Cube} (found : m.cube name = .ok cube) :
    m.cubes.find? (·.name == cube.name) = some cube := by
  unfold Model.cube at found
  cases looked : name.lookupKey with
  | error fault => rw [looked] at found; cases found
  | ok key =>
    rw [looked] at found
    cases key with
    | none => cases found
    | some key =>
      cases led : m.cubes.find? (·.name == key) with
      | none => simp [led, bind, Except.bind, fail] at found
      | some other =>
        simp only [led, bind, Except.bind, Option.bind, pure, Except.pure, Except.ok.injEq] at found
        subst found
        have same : other.name = key := beq_iff_eq.1 (List.find?_some led :)
        rwa [same]

theorem exists_call_of_asked {calls : List Call} {cube : Cube} (member : cube ∈ w.asked calls) :
    ∃ choice options, .browser choice options ∈ calls ∧ w.cube choice = .ok cube := by
  unfold asked at member
  induction calls using List.reverseRecOn with
  | nil => cases member
  | append_singleton calls call inductionHypothesis =>
    have before (earlier : cube ∈ calls.foldl w.askedAfter []) :
        ∃ choice options, .browser choice options ∈ calls ++ [call] ∧ w.cube choice = .ok cube := by
      obtain ⟨choice, options, inside, known⟩ := inductionHypothesis earlier
      exact ⟨choice, options, List.mem_append_left _ inside, known⟩
    rw [List.foldl_append, List.foldl_cons, List.foldl_nil] at member
    cases call with
    | close => cases member
    | browser choice options =>
      rw [askedAfter] at member
      cases known : w.cube choice with
      | error fault => exact before (by simpa only [known] using member)
      | ok other =>
        simp only [known] at member
        split at member
        · rcases List.mem_append.1 member with earlier | last
          · exact before earlier
          · obtain rfl := List.mem_singleton.1 last
            exact ⟨choice, options, List.mem_append_right _ List.mem_cons_self, known⟩
        · exact before member

/-- Where all cubes are asked for by name, each is the first of its name. -/
theorem firstLike_asked {calls : List Call}
    (named : ∀ choice options, .browser choice options ∈ calls → ∃ name, choice = .named name)
    {name : Description} {cube : Cube} (known : w.cube (.named name) = .ok cube) :
    firstLike (w.asked calls) cube = cube := by
  refine firstLike_eq_iff.2 fun first found => ?_
  obtain ⟨choice, options, inside, knownFirst⟩ := exists_call_of_asked (List.mem_of_find?_eq_some found)
  obtain ⟨other, rfl⟩ := named choice options inside
  have same : first.name = cube.name := beq_iff_eq.1 (List.find?_some found :)
  exact Option.some.inj ((find?_of_cube knownFirst).symm.trans (same ▸ find?_of_cube known))

/-! ### A cube from elsewhere -/

/-- Sales that are kept in a table of another name. -/
def salesElsewhere : Cube :=
  ⟨"sales", ObjectKind.bareHeader, [], [], [], some "other_sales", none, "id", [], .standalone⟩

/-- The configuration that is read from nothing. -/
def usualConfig : Config := ⟨.usual, none, none⟩

/-- A cube that was asked for before is not handed out for another of its name when options are given. -/
theorem browser_meets_request_market : ∃ w : Workspace (List Scripted),
    create [] (.finished usualConfig) Model.market (some Scripted.store) [] = .ok w ∧
      w.backend.store? = some Scripted.store.onFirst ∧
      w.cube (.finished salesElsewhere) = .ok salesElsewhere ∧
      ∃ opened later, (w.afterAll [.browser (.named (.text "sales")) []]).browser
          (.finished salesElsewhere) [("debug", .bool true)] = .ok (opened, later) ∧
        opened.browser.cube = salesElsewhere ∧ opened.browser.compiler.table = "other_sales" := by
  obtain ⟨w, made⟩ : ∃ w : Workspace (List Scripted),
      create [] (.finished usualConfig) Model.market (some Scripted.store) [] = .ok w := ⟨_, rfl⟩
  have stored : w.backend.store? = some Scripted.store.onFirst := by
    cases made
    rfl
  have known : w.cube (.finished salesElsewhere) = .ok salesElsewhere := rfl
  obtain ⟨opened, later, same, exact, compiled, -⟩ := browser_meets_request made stored
    [.browser (.named (.text "sales")) []] known [("debug", .bool true)]
  have own := exact.2 nofun
  refine ⟨w, made, stored, known, opened, later, same, own, ?_⟩
  rw [compiled, own]
  cases made
  rfl

/-- Sales from elsewhere get the browser of the sales that were asked for first, and who spells out an option
that would be the same anyway gets another browser than who does not. -/
theorem exists_browser_of_other_cube : ∃ w : Workspace (List Scripted),
    create [] (.finished usualConfig) Model.market (some Scripted.store) [] = .ok w ∧
      ∃ first later, w.browser (.named (.text "sales")) [] = .ok (first, later) ∧
        (∃ opened last, later.browser (.finished salesElsewhere) [] = .ok (opened, last) ∧
          opened.browser.cube ≠ salesElsewhere ∧ opened.browser.compiler.table = "sales") ∧
        ∃ opened last, later.browser (.named (.text "sales")) [("debug", .bool false)] = .ok (opened, last) ∧
          opened.browser.options = first.browser.options ∧ opened.number ≠ first.number := by
  obtain ⟨w, made⟩ : ∃ w : Workspace (List Scripted),
      create [] (.finished usualConfig) Model.market (some Scripted.store) [] = .ok w := ⟨_, rfl⟩
  refine ⟨w, made, ?_⟩
  cases made
  refine ⟨_, _, rfl, ⟨_, _, rfl, fun same => ?_, rfl⟩, ⟨_, _, rfl, rfl, ?_⟩⟩
  · exact absurd (congrArg Cube.factTable same) (by decide)
  · exact Nat.one_ne_zero

end Workspace

end Olap
