import SAOmega.TaskExecutor.Trees
import SAOmega.Status.LastWrite
import SAOmega.Status.Heartbeat
import SAOmega.SafeQueue.WakeUp
import SAOmega.Lifecycle.Unload
import SAOmega.WorldSave.Served
import SAOmega.Plugin.ExitStatus
import SAOmega.Plugin.Server
import SAOmega.Breeding.MutationLimit
import SAOmega.Experience.Sharing
import SAOmega.Commands.Format
import SAOmega.Loot.Pass
import SAOmega.Spyglass.Lifetime
import SAOmega.Blueprints.Statics
