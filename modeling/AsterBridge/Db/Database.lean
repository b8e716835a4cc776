import AsterBridge.Db.Cache
import AsterBridge.Db.ChangeLog
import AsterBridge.Db.FlagPush

/-!
# The bridge database

The tables that the mail store, the flag queue and the JMAP change log consist
of, side by side: no function writes tables of two of them in one statement.
-/

set_option autoImplicit false

namespace AsterBridge.Db

/-- The database, as far as it is modelled. -/
structure Database where
  cache : Cache
  flagPushes : FlagPushQueue
  changeLog : ChangeLog

namespace Database

/-- A new database. -/
def empty : Database := ⟨Cache.empty, Lib.Table.empty, ChangeLog.empty⟩

/-- Apply a function of the cache. -/
def onCache (db : Database) (f : Cache → Cache) : Database := { db with cache := f db.cache }

@[simp] theorem cache_onCache (db : Database) (f : Cache → Cache) :
    (db.onCache f).cache = f db.cache := rfl

@[simp] theorem flagPushes_onCache (db : Database) (f : Cache → Cache) :
    (db.onCache f).flagPushes = db.flagPushes := rfl

@[simp] theorem changeLog_onCache (db : Database) (f : Cache → Cache) :
    (db.onCache f).changeLog = db.changeLog := rfl

end Database

end AsterBridge.Db
