import Glider.Transfer.Delivery
import Glider.Llm.ToolPolicy
import Glider.Exec.Owners
import Glider.Exec.Shutdown
import Glider.AnyMessage.Removal
import Glider.AnyMessage.Waiting
import Glider.Modules.Unload
import Glider.Modules.Lifetime
import Glider.Db.Authorization
import Glider.Web.Success
import Glider.Llm.AskConfirm
import Glider.Builder.Reviewed
import Glider.Builder.Cancelling
import Glider.RomBuild.Lockup
import Glider.RomBuild.Cancelled
import Glider.RomBuild.LogEnd
import Glider.RomBuild.Registry
import Glider.RomBuild.Result
import Glider.RomConfig.Devices
import Glider.KernelBuild.Pruning
import Glider.KernelBuild.Outcome
import Glider.KernelBuild.Interrupt
import Glider.ChatJoin.Presses
import Glider.CallbackQuery.Reached
import Glider.Llm.OutboundReports
import Glider.Ubash.Heeded
import Glider.ConfigParsers.Reload
import Glider.Compiler.Report
import Glider.Ml.Dictionary
import Glider.Ibash.Sessions
import Glider.Quote.Ranges
import Glider.Quote.Dimensions
import Glider.AndroidConfig.Merged
import Glider.Llm.RejectedPlans
import Glider.Llm.ReplyShapes
import Glider.KernelBuild.ConfigNames
import Glider.RomBuild.Releases
import Glider.KernelBuild.Downloads
import Glider.GitRepo.Credentials
import Glider.Db.Sqlite.Migration
import Glider.Db.MediaAtomic
import Glider.Api.Restart
import Glider.Ibash.Reads
import Glider.Llm.TelegramOutput
import Glider.Llm.ToolRouter
import Glider.Transfer.Received
import Glider.PopenWdt.Protocol
import Glider.Modules.LifeCycle
import Glider.Commands.Possibility
import Glider.Imagep.Rows
import Glider.Memory.SharedMalloc
import Glider.Llm.Conversations
import Glider.Llm.PickerPresses
import Glider.RegexHandler.Outcomes
import Glider.SpamBlock.Batches
import Glider.Api.Delivery
