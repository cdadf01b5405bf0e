import Rollout.Handler.Basic

/-! Sharded databases, and the records that are kept about applications and instances. -/

namespace Rollout.Handler

def Database.execute (s : Settings) : Payload → Work
  | .shardCollection database collection => s.make (.shardCollection database collection)
  | .moveChunk database collection key shard => s.make (.moveChunk database collection key shard)
  | .dropDatabase database collections => s.make (.dropDatabase database collections)
  | p => wrong "database admin" p

def Knowledge.execute (s : Settings) : Payload → Work
  | .addAppRecord application => s.make (.addAppRecord application)
  | .deleteAppRecord application => s.make (.deleteAppRecord application)
  | .registerApplication application descriptor =>
    s.make (.registerApplication application descriptor)
  | .createInstanceRecord i node => s.make (.createInstanceRecord i node)
  | .deleteInstanceRecord i => s.make (.deleteInstanceRecord i)
  | .initializeScheduledJob application component schedule =>
    s.make (.initializeScheduledJob application component schedule)
  | p => wrong "knowledge store" p

end Rollout.Handler
