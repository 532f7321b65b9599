import DeclBundle.Configuration.Options
import DeclBundle.Data.Value
import DeclBundle.Fault
import DeclBundle.Files.Tree
import DeclBundle.Text.Lines
set_option autoImplicit false

/-!
# The settings file

A directory may hold a file with settings.  What it does not say has a default, and paths in it are
seen from its directory.  What reads the data in the file comes from outside.
-/

namespace DeclBundle.Configuration

open Data

/-- A location where a leading `~` stands for the home directory. -/
def expandHome (place : Files.Place) (l : Location) : Location :=
  match l.slashes, l.parts with
  | 0, "~" :: rest => let home := Location.ofPath place.home; ⟨home.slashes, home.parts ++ rest⟩
  | _, _ => l

/-- The settings file that a location means: the location itself, or the file in that directory. -/
def settingsFile (files : Files.FileTree) (place : Files.Place) (l : Location) :
    Except Files.Fault Location := do
  let l := expandHome place l
  let e ← files.probe place l.path
  if e.any Files.Entry.isDirectory then
    return Files.resolve place (l.child settingsFileName).path
  else return Files.resolve place l.path

/-- The location that a member of a mapping gives, seen from a directory. -/
def memberLocation? (root : Location) (ms : List (Value × Value)) (key : String) :
    Option Location :=
  ((Value.memberText? ms key).filter (· != "")).map root.child

/-- The settings that the members of a mapping give. -/
def Settings.ofMembers (root : Location) (ms : List (Value × Value)) : Settings where
  root := root
  name := Value.memberText? ms "name"
  out := memberLocation? root ms "out"
  main := Value.memberText? ms "main"
  baseDir := memberLocation? root ms "base_dir"
  project := memberLocation? root ms "project"
  exclude := Value.memberTexts ms "exclude"
  externs := Value.memberTexts ms "externs"
  eol := Value.memberText? ms "eol"
  indent := Value.memberText? ms "indent"
  verbose := (Value.member? ms "verbose").any Value.isTruthy
  logFile := memberLocation? root ms "log_file"

/-- The settings that the text of a settings file gives.  A text without data gives none. -/
def Settings.ofText (read : Reader) (file : Location) (text : List Char) :
    Except Fault Settings :=
  let data := if text.all Text.isBlank then .ok .null else read text
  match data with
  | .error problem => .error (.badSettings (file.name?.getD "") problem)
  | .ok (.mapping ms) => .ok (.ofMembers file.parent ms)
  | .ok v => if v.isTruthy then .error .settingsNotMapping else .ok { root := file.parent }

/-- Reads the settings that a location means.  A file that is not there gives none. -/
def Settings.load (read : Reader) (files : Files.FileTree) (place : Files.Place) (l : Location) :
    Except DeclBundle.Fault Settings := do
  let file ← (settingsFile files place l).mapError .files
  match ← (files.probe place file.path).mapError .files with
  | none => return { root := file.parent }
  | some _ =>
    let bytes ← (files.read place file.path).mapError .files
    let text ← (Utf8.decode bytes).mapError .undecodable
    (Settings.ofText read file (Text.unifyNewlines text)).mapError .configuration

end DeclBundle.Configuration
