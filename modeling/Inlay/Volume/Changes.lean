import Inlay.Volume.Basic

/-!
# Changes of a volume

What has to be done to one volume to get another: the entries to put, and the places to clear.
-/

namespace Inlay.Volume

/-- A place and what stands there after a change; nothing, if the entry is gone. -/
abbrev Change := Place × Option Entry

def arrivals (before after : Volume) : List Change :=
  (after.entries.filter fun (place, entry) => before.entries.lookup place != some entry).map
    fun (place, entry) => (place, some entry)

def departures (before after : Volume) : List Change :=
  (before.entries.filter fun (place, _) => (after.entries.lookup place).isNone).map
    fun (place, _) => (place, none)

def changes (before after : Volume) : List Change :=
  arrivals before after ++ departures before after

end Inlay.Volume
