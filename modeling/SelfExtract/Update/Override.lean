import SelfExtract.Json.Shape
import SelfExtract.Settings

/-!
# Settings given with a launch

A JSON text on the command line can switch the look-up off or change single
settings. A text that is not of the right shape counts as none. An address or
pattern that nobody gives is filled in when there is such a text.
-/
namespace SelfExtract

structure UpdateOverride where
  enabled : Option Bool
  interval : Option Int64
  notifyInterval : Option Int64
  prompt : Option Bool
  promptDefault : Option String
  binname : Option String
  command : Option String
  url : Option String
  tag : Option String
  skipEnv : Option String
  deriving DecidableEq, Repr

/-- The releases that are looked at unless settings name others. -/
def releasesUrl : String := "https://api.github.com/repos/SocketDev/socket-btm/releases"

/-- The tags that are looked at unless settings name others. -/
def releasesTag : String := "node-smol-*"

namespace UpdateOverride

open Json (Tree)

def names : List String :=
  ["enabled", "interval", "notify_interval", "prompt", "prompt_default", "binname", "command",
    "url", "tag", "skip_env"]

def ofTree? (t : Tree) : Option UpdateOverride := do
  match ← t.record? names 0 with
  | [enabled, interval, notifyInterval, prompt, promptDefault, binname, command, url, tag,
      skipEnv] =>
    return {
      enabled := ← Tree.member? Tree.bool? enabled
      interval := ← Tree.member? Tree.int64? interval
      notifyInterval := ← Tree.member? Tree.int64? notifyInterval
      prompt := ← Tree.member? Tree.bool? prompt
      promptDefault := ← Tree.member? Tree.text? promptDefault
      binname := ← Tree.member? Tree.text? binname
      command := ← Tree.member? Tree.text? command
      url := ← Tree.member? Tree.text? url
      tag := ← Tree.member? Tree.text? tag
      skipEnv := ← Tree.member? Tree.text? skipEnv }
  | _ => none

def parse? (text : String) : Option UpdateOverride :=
  (Tree.parse? (Utf8.encode text)).bind ofTree?

/-- The answer that a text begins with: yes for `y` in either case, no for all else. -/
def answerOf (s : String) : Char :=
  match s.toList with
  | 'y' :: _ => 'y'
  | 'Y' :: _ => 'y'
  | _ => 'n'

/-- A text, or another one when it is empty. -/
def orDefault (s default : String) : String :=
  if s.isEmpty then default else s

def apply (o : UpdateOverride) (u : UpdateSettings) : UpdateSettings where
  prompt := o.prompt.getD u.prompt
  promptDefault := (o.promptDefault.map answerOf).getD u.promptDefault
  interval := o.interval.getD u.interval
  notifyInterval := o.notifyInterval.getD u.notifyInterval
  binname := o.binname.getD u.binname
  command := o.command.getD u.command
  url := o.url.getD (orDefault u.url releasesUrl)
  tag := o.tag.getD (orDefault u.tag releasesTag)
  skipEnv := o.skipEnv.getD u.skipEnv
  fakeArgvEnv := u.fakeArgvEnv

end UpdateOverride

/-- The settings of a launch: the embedded ones, or the defaults when there is only an override,
changed by the override. There are none when neither is given or the override says so. -/
def resolveSettings (embedded : Option UpdateSettings) (given : Option String) :
    Option UpdateSettings :=
  match embedded, given.bind UpdateOverride.parse? with
  | none, none => none
  | some u, none => some u
  | embedded, some o =>
    if o.enabled = some false then none
    else some (o.apply (embedded.getD UpdateSettings.default))

end SelfExtract
